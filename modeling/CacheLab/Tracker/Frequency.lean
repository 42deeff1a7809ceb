import Std.Data.HashMap
import CacheLab.ArenaList
import CacheLab.Inconsistency
import CacheLab.Text.Bracketed
import CacheLab.Word

/-!
# CacheLab.Tracker.Frequency — keys by their access count

Keys with one access count share a *bucket*. The buckets stand in a list by
strictly ascending count, each with its keys from the most to the least
recently touched, and an index finds the bucket and the node of each key:

    buckets   count 1      count 2      count 5
    keys      c, d         a            b

A bucket is dropped as soon as it is empty, so the victim, the least recently
touched of the keys with the lowest count, is the last key of the first bucket
(`d` above). An access moves a key from count `f` to the bucket of `f + 1`,
which is the next bucket or is made right behind the old one, and the old
bucket is dropped only after that. Counts stop at `Frequency.limit`.
-/

namespace CacheLab

/-- The keys that have one access count, most recently touched first. -/
structure Bucket (κ : Type) where
  frequency : Nat
  keys : ArenaList κ := .empty

/-- Where a key stands: its bucket, and its node in that bucket. -/
structure Position where
  bucket : Handle
  slot : Handle
deriving DecidableEq, Repr

/-- Keys in buckets of equal access count, from the lowest count to the highest. -/
structure Frequency (κ : Type) [BEq κ] [Hashable κ] where
  buckets : ArenaList (Bucket κ) := .empty
  index : Std.HashMap κ Position := ∅

namespace Frequency

variable {κ : Type} [DecidableEq κ] [Hashable κ]

/-- The access count of a key that was just inserted. -/
def initial : Nat := 1

/-- The highest access count; an access to a key that has it only refreshes
the place of the key in its bucket. -/
def limit : Nat := wordCount - 1

/-- The tracker of no keys. -/
def empty : Frequency κ := {}

/-- The number of tracked keys. -/
def size (t : Frequency κ) : Nat := t.index.size

/-- Whether `key` is tracked. -/
def contains (t : Frequency κ) (key : κ) : Bool := t.index.contains key

/-- The access count of the bucket that `h` names. -/
def bucketFrequency? (t : Frequency κ) (h : Handle) : Option Nat :=
  (t.buckets.get? h).map (·.frequency)

/-- The access count of `key`. -/
def frequency? (t : Frequency κ) (key : κ) : Option Nat :=
  t.index[key]?.bind fun position => t.bucketFrequency? position.bucket

/-- The lowest access count. -/
def lowest? (t : Frequency κ) : Option Nat := t.buckets.front?.map (·.frequency)

/-- The highest access count. -/
def highest? (t : Frequency κ) : Option Nat := t.buckets.back?.map (·.frequency)

/-- The number of distinct access counts. -/
def levels (t : Frequency κ) : Nat := t.buckets.length

/-- The tracked keys with their access counts, lowest count first and most
recently touched first among equals. -/
def entries (t : Frequency κ) : List (κ × Nat) :=
  t.buckets.toList.flatMap fun bucket => bucket.keys.toList.map (·, bucket.frequency)

/-- The tracked keys in the order of `entries`. -/
def keys (t : Frequency κ) : List κ := t.entries.map (·.1)

/-- The key that leaves next. -/
def victim? (t : Frequency κ) : Option κ := t.buckets.front?.bind (·.keys.back?)

/-! ## Buckets -/

/-- The bucket of `frequency` right behind the bucket `anchor`, made if needed. -/
def successorBucket (t : Frequency κ) (anchor : Handle) (frequency : Nat) :
    Option Handle × Frequency κ :=
  match t.buckets.next? anchor with
  | some next =>
    if t.bucketFrequency? next = some frequency then
      (some next, t)
    else
      let (h, buckets) := t.buckets.insertAfter anchor { frequency }
      (h, { t with buckets })
  | none =>
    let (h, buckets) := t.buckets.insertAfter anchor { frequency }
    (h, { t with buckets })

/-- The bucket of newly inserted keys, made at the front if needed. -/
def initialBucket (t : Frequency κ) : Handle × Frequency κ :=
  match t.buckets.head with
  | some front =>
    if t.bucketFrequency? front = some initial then
      (front, t)
    else
      let (h, buckets) := t.buckets.pushFront { frequency := initial }
      (h, { t with buckets })
  | none =>
    let (h, buckets) := t.buckets.pushFront { frequency := initial }
    (h, { t with buckets })

/-- Drops the bucket `h` if it holds no key. -/
def releaseIfEmpty (t : Frequency κ) (h : Handle) : Frequency κ :=
  if (t.buckets.get? h).any (·.keys.isEmpty) then
    { t with buckets := (t.buckets.remove h).2 }
  else
    t

/-- Changes the keys of the bucket `h`. -/
def modifyKeys (t : Frequency κ) (h : Handle) (f : ArenaList κ → ArenaList κ) : Frequency κ :=
  { t with buckets := t.buckets.modify h fun bucket => { bucket with keys := f bucket.keys } }

/-- The handle that the next new key of the bucket `h` gets. -/
def freshSlot? (t : Frequency κ) (h : Handle) : Option Handle :=
  (t.buckets.get? h).map (·.keys.freshHandle)

/-- Puts `key` at the front of the bucket `h` and answers its handle there. A
handle that names no bucket leaves the tracker as it was. -/
def pushKey (t : Frequency κ) (h : Handle) (key : κ) : Option Handle × Frequency κ :=
  match t.freshSlot? h with
  | none => (none, t)
  | some slot => (some slot, t.modifyKeys h fun keys => (keys.pushFront key).2)

/-- Changes the position of a key that is indexed. -/
def reindex (t : Frequency κ) (key : κ) (position : Position) : Frequency κ :=
  if t.index.contains key then { t with index := t.index.insert key position } else t

/-! ## Operations -/

/-- Counts an access to a tracked key; an untracked one is ignored. -/
def access (t : Frequency κ) (key : κ) : Frequency κ :=
  match t.index[key]? with
  | none => t
  | some position =>
    match t.bucketFrequency? position.bucket with
    | none => t
    | some frequency =>
      if frequency = limit then
        t.modifyKeys position.bucket fun keys => (keys.moveToFront position.slot).2
      else
        match t.successorBucket position.bucket (frequency + 1) with
        | (none, t) => t
        | (some target, t) =>
          match (t.buckets.get? position.bucket).bind (·.keys.get? position.slot) with
          | none => t.releaseIfEmpty target
          | some owned =>
            let t := t.modifyKeys position.bucket fun keys => (keys.remove position.slot).2
            match t.pushKey target owned with
            | (none, t) => t
            | (some slot, t) => (t.releaseIfEmpty position.bucket).reindex key ⟨target, slot⟩

/-- Tracks `key` with the initial count; a key that is already tracked counts
an access instead. -/
def insert (t : Frequency κ) (key : κ) : Frequency κ :=
  if t.index.contains key then
    t.access key
  else
    let (h, t) := t.initialBucket
    match t.pushKey h key with
    | (none, t) => t
    | (some slot, t) => { t with index := t.index.insert key ⟨h, slot⟩ }

/-- Takes the last key of the first bucket out and answers it. -/
def evict (t : Frequency κ) : Option κ × Frequency κ :=
  match t.buckets.head with
  | none => (none, t)
  | some front =>
    match (t.buckets.get? front).bind (·.keys.popBack.1) with
    | none => (none, t)
    | some key =>
      let t := (t.modifyKeys front fun keys => keys.popBack.2).releaseIfEmpty front
      (some key, { t with index := t.index.erase key })

/-- Takes `key` out and answers whether it was tracked. -/
def remove (t : Frequency κ) (key : κ) : Bool × Frequency κ :=
  match t.index[key]? with
  | none => (false, t)
  | some position =>
    let t := { t with index := t.index.erase key }
    let t := t.modifyKeys position.bucket fun keys => (keys.remove position.slot).2
    (true, t.releaseIfEmpty position.bucket)

/-- Forgets every key. -/
def clear (_ : Frequency κ) : Frequency κ := empty

/-! ## Consistency -/

/-- The first bucket that is empty or does not exceed the count before it. -/
def bucketFault? : Option Nat → List (Bucket κ) → Option Inconsistency
  | _, [] => none
  | previous, bucket :: rest =>
    if bucket.keys.isEmpty then
      some .frequencyEmptyBucket
    else if previous.any fun count => bucket.frequency ≤ count then
      some .frequencyBucketOrder
    else
      bucketFault? (some bucket.frequency) rest

/-- The number of keys in all buckets. -/
def listed (t : Frequency κ) : Nat :=
  t.buckets.toList.foldl (fun n bucket => n + bucket.keys.length) 0

/-- The first fault of the buckets, of their number of keys, or of an index entry. -/
def fault? (t : Frequency κ) : Option Inconsistency :=
  match bucketFault? none t.buckets.toList with
  | some fault => some fault
  | none =>
    if t.listed ≠ t.index.size then
      some .frequencyLength
    else
      t.index.toList.findSome? fun (key, position) =>
        match t.buckets.get? position.bucket with
        | none => some .frequencyDeadBucket
        | some bucket =>
          if bucket.keys.get? position.slot = some key then none else some .frequencyWrongSlot

/-- How a tracker is shown: by its buckets, each a pair of count and keys. -/
def describe (t : Frequency κ) (showKey : κ → String) : String :=
  Text.bracketed <| t.buckets.toList.map fun bucket =>
    s!"({bucket.frequency}, {Text.bracketed (bucket.keys.toList.map showKey)})"

end Frequency

end CacheLab
