/-!
# CacheLab.Inconsistency — what a consistency check can find

A cache keeps its values, its eviction order and the index into that order
side by side. `Inconsistency` names the ways in which they can disagree, and
`message` says each of them in words.
-/

namespace CacheLab

/-- The first disagreement that a consistency check found. -/
inductive Inconsistency where
  | recencyLength
  | recencyKeyMissing
  | recencyWrongNode
  | arrivalLength
  | arrivalWrongNode
  | frequencyEmptyBucket
  | frequencyBucketOrder
  | frequencyLength
  | frequencyDeadBucket
  | frequencyWrongSlot
  | overCapacity
  | storeLength
  | untrackedKey
  /-- A disagreement that the finder describes in its own words. -/
  | described (text : String)
deriving DecidableEq, Repr

namespace Inconsistency

/-- The disagreement in words. -/
def message : Inconsistency → String
  | recencyLength => "LRU order and index differ in length"
  | recencyKeyMissing => "LRU key missing from index"
  | recencyWrongNode => "LRU index points at the wrong node"
  | arrivalLength => "FIFO queue and index differ in length"
  | arrivalWrongNode => "FIFO key not indexed at its own node"
  | frequencyEmptyBucket => "empty LFU bucket persisted"
  | frequencyBucketOrder => "LFU buckets out of order"
  | frequencyLength => "LFU buckets and index differ in length"
  | frequencyDeadBucket => "LFU index points at a dead bucket"
  | frequencyWrongSlot => "LFU index points at the wrong slot"
  | overCapacity => "cache holds more entries than its capacity"
  | storeLength => "store and tracker differ in length"
  | untrackedKey => "stored key is not tracked"
  | described text => text

end Inconsistency

end CacheLab
