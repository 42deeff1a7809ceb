import CacheLab.Store
import CacheLab.Tracker
import CacheLab.Metrics

/-!
# CacheLab.Cache — bounded caches

A `Cache` holds at most `capacity` entries. It keeps three parts in step: the
store of values, the tracker of the eviction order and the metrics.

* `get` and `modify` look a key up and count as an access; `peek?` and
  `contains` leave no trace.
* `put` updates a present key, or inserts an absent one after making room by
  eviction; it answers the entry that it displaced.
* `remove`, `pop` and `clear` take entries out.
* `fault?` checks that the parts agree.
-/

namespace CacheLab

/-- The size and the policy of a cache. -/
structure Config where
  capacity : Nat
  policy : Policy
  capacity_pos : 0 < capacity

/-- Why there is no cache for the given size. -/
inductive ConfigError where
  | zeroCapacity
deriving DecidableEq, Repr

/-- The error in words. -/
def ConfigError.message : ConfigError → String
  | zeroCapacity => "cache capacity must be greater than zero"

namespace Config

/-- The configuration of a cache of `capacity` entries, which must not be zero. -/
def new? (capacity : Nat) (policy : Policy) : Except ConfigError Config :=
  if h : 0 < capacity then .ok ⟨capacity, policy, h⟩ else .error .zeroCapacity

/-- How a configuration is shown. -/
def describe (c : Config) : String :=
  s!"PolicyCacheConfig \x7b capacity: {c.capacity}, policy: {c.policy.choice} \x7d"

end Config

/-- A bounded map from keys to values with an eviction order. -/
structure Cache (κ ν : Type) [BEq κ] [Hashable κ] where
  config : Config
  store : Store κ ν
  tracker : Tracker κ
  metrics : Metrics

namespace Cache

variable {κ ν : Type} [DecidableEq κ] [Hashable κ]

/-- The empty cache of a configuration. -/
def new (config : Config) : Cache κ ν where
  config
  store := .empty
  tracker := .new config.policy
  metrics := .new config.policy config.capacity

/-- The empty cache of `capacity` entries under `policy`. -/
def new? (capacity : Nat) (policy : Policy) : Except ConfigError (Cache κ ν) :=
  (Config.new? capacity policy).map new

/-! ## Reading without a trace -/

/-- The greatest number of entries. -/
def capacity (c : Cache κ ν) : Nat := c.config.capacity

/-- The rule of eviction. -/
def policy (c : Cache κ ν) : Policy := c.config.policy

/-- The number of entries. -/
def size (c : Cache κ ν) : Nat := c.store.size

/-- Whether there are no entries. -/
def isEmpty (c : Cache κ ν) : Bool := c.store.isEmpty

/-- Whether `key` is cached. -/
def contains (c : Cache κ ν) (key : κ) : Bool := c.store.contains key

/-- The value under `key`. -/
def peek? (c : Cache κ ν) (key : κ) : Option ν := c.store.get? key

/-- The key that leaves next. -/
def victim? (c : Cache κ ν) : Option κ := c.tracker.victim?

/-- The access count of `key`, where accesses are counted. -/
def frequency? (c : Cache κ ν) (key : κ) : Option Nat := c.tracker.frequency? key

/-- Every metric by name. -/
def report? (c : Cache κ ν) : Except Overflow Measures := c.metrics.report?

/-! ## Steps that the operations share -/

/-- Copies the spread of the access counts into the metrics. -/
def refreshLevels (c : Cache κ ν) : Cache κ ν :=
  let refresh (l : Levels) := l.refresh c.tracker.lowest? c.tracker.highest? c.tracker.levels
  { c with metrics := { c.metrics with levels := c.metrics.levels.map refresh } }

/-- Counts one event. -/
def record (c : Cache κ ν) (e : Event) : Cache κ ν := { c with metrics := c.metrics.record e }

/-- Notes an access to the present key `key`. A promotion is counted if the
access count of the key has changed. -/
def touch (c : Cache κ ν) (key : κ) : Cache κ ν :=
  if c.policy.tracksAccess then
    let before := c.tracker.frequency? key
    let tracker := c.tracker.access key
    let promote (l : Levels) := if tracker.frequency? key = before then l else l.promote
    refreshLevels
      { c with tracker, metrics := { c.metrics with levels := c.metrics.levels.map promote } }
  else
    c

/-- Takes the victim out of the tracker and its value out of the store. -/
def evict (c : Cache κ ν) : Option (κ × ν) × Cache κ ν :=
  match c.tracker.evict with
  | (none, tracker) => (none, { c with tracker })
  | (some key, tracker) =>
    match c.store.remove key with
    | (none, store) => (none, { c with tracker, store })
    | (some value, store) => (some (key, value), { c with tracker, store }.record .eviction)

/-! ## Operations -/

/-- Looks `key` up; a hit is an access. -/
def get (c : Cache κ ν) (key : κ) : Option ν × Cache κ ν :=
  match c.peek? key with
  | none => (none, c.record .miss)
  | some value => (some value, (c.touch key).record .hit)

/-- Looks `key` up like `get` and changes the value; answers the old value. -/
def modify (c : Cache κ ν) (key : κ) (f : ν → ν) : Option ν × Cache κ ν :=
  match c.peek? key with
  | none => (none, c.record .miss)
  | some value =>
    let c := (c.touch key).record .hit
    (some value, { c with store := c.store.modify key f })

/-- Puts `value` under `key`. A present key is updated, which is an access, and
the answer is the key with its old value; an absent key is inserted, and the
answer is the entry that was evicted to make room, if the cache was full. -/
def put (c : Cache κ ν) (key : κ) (value : ν) : Option (κ × ν) × Cache κ ν :=
  match c.peek? key with
  | some old =>
    let c := { c with store := c.store.insert key value }
    (some (key, old), (c.touch key).record .update)
  | none =>
    let (evicted, c) := if c.capacity ≤ c.size then c.evict else (none, c)
    let c := { c with store := c.store.insert key value, tracker := c.tracker.insert key }
    (evicted, (c.record .insertion).refreshLevels)

/-- Takes `key` out and answers its value. -/
def remove (c : Cache κ ν) (key : κ) : Option ν × Cache κ ν :=
  match c.peek? key with
  | none => (none, c)
  | some value =>
    let c := { c with store := (c.store.remove key).2, tracker := (c.tracker.remove key).2 }
    (some value, (c.record .removal).refreshLevels)

/-- Takes `key` out and answers whether it was present. -/
def erase (c : Cache κ ν) (key : κ) : Bool × Cache κ ν :=
  let (value, c) := c.remove key
  (value.isSome, c)

/-- Evicts the victim and answers its entry. -/
def pop (c : Cache κ ν) : Option (κ × ν) × Cache κ ν :=
  let (entry, c) := c.evict
  (entry, c.refreshLevels)

/-- Pops until nothing is left, and answers the entries in the order in which
they left. -/
def drain (c : Cache κ ν) : List (κ × ν) × Cache κ ν :=
  popUpTo c.size c
where
  /-- Pops at most the given number of entries. -/
  popUpTo : Nat → Cache κ ν → List (κ × ν) × Cache κ ν
    | 0, c => ([], c)
    | n + 1, c =>
      match c.pop with
      | (none, c) => ([], c)
      | (some entry, c) =>
        let (entries, c) := popUpTo n c
        (entry :: entries, c)

/-- Drops every entry. -/
def clear (c : Cache κ ν) : Cache κ ν :=
  { c with store := c.store.clear, tracker := c.tracker.clear }.record .clear |>.refreshLevels

/-! ## Consistency -/

/-- The first disagreement between the capacity, the store and the tracker. -/
def fault? (c : Cache κ ν) : Option Inconsistency :=
  if c.capacity < c.size then
    some .overCapacity
  else if c.size ≠ c.tracker.size then
    some .storeLength
  else if c.store.keys.any fun key => !c.tracker.contains key then
    some .untrackedKey
  else
    c.tracker.fault?

/-- How a cache is shown. -/
def describe (c : Cache κ ν) : String :=
  s!"PolicyCache \x7b capacity: {c.capacity}, policy: {c.policy.choice}, len: {c.size} \x7d"

end Cache

end CacheLab
