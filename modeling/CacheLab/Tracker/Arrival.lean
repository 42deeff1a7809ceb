import Std.Data.HashMap
import CacheLab.ArenaList
import CacheLab.Inconsistency
import CacheLab.Text.Bracketed

/-!
# CacheLab.Tracker.Arrival — keys by their arrival

The keys stand in one queue from the oldest to the newest, and an index finds
the node of each key. An insertion joins the queue at its end, a key that
already stands in it keeps its place, and the victim is the first key.
-/

namespace CacheLab

/-- Keys from the oldest to the newest. -/
structure Arrival (κ : Type) [BEq κ] [Hashable κ] where
  queue : ArenaList κ := .empty
  index : Std.HashMap κ Handle := ∅

namespace Arrival

variable {κ : Type} [DecidableEq κ] [Hashable κ]

/-- The tracker of no keys. -/
def empty : Arrival κ := {}

/-- The number of tracked keys. -/
def size (t : Arrival κ) : Nat := t.index.size

/-- Whether `key` is tracked. -/
def contains (t : Arrival κ) (key : κ) : Bool := t.index.contains key

/-- The tracked keys, oldest first. -/
def keys (t : Arrival κ) : List κ := t.queue.toList

/-- The key that leaves next. -/
def victim? (t : Arrival κ) : Option κ := t.queue.front?

/-- Tracks `key` as the newest, unless it already stands in the queue. -/
def insert (t : Arrival κ) (key : κ) : Arrival κ :=
  if t.index.contains key then
    t
  else
    let (h, queue) := t.queue.pushBack key
    { queue, index := t.index.insert key h }

/-- Takes the victim out and answers it. -/
def evict (t : Arrival κ) : Option κ × Arrival κ :=
  match t.queue.popFront with
  | (none, queue) => (none, { t with queue })
  | (some key, queue) => (some key, { queue, index := t.index.erase key })

/-- Takes `key` out and answers whether it was tracked. -/
def remove (t : Arrival κ) (key : κ) : Bool × Arrival κ :=
  match t.index[key]? with
  | none => (false, t)
  | some h => (true, { queue := (t.queue.remove h).2, index := t.index.erase key })

/-- Forgets every key. -/
def clear (_ : Arrival κ) : Arrival κ := empty

/-- The first listed key that is not indexed at its own node. -/
def fault? (t : Arrival κ) : Option Inconsistency :=
  if t.queue.length ≠ t.index.size then
    some .arrivalLength
  else
    t.keys.findSome? fun key =>
      if t.index[key]?.bind t.queue.get? = some key then none else some .arrivalWrongNode

/-- How a tracker is shown: by its keys in order. -/
def describe (t : Arrival κ) (showKey : κ → String) : String :=
  s!"FifoTracker \x7b queue: {Text.bracketed (t.keys.map showKey)} \x7d"

end Arrival

end CacheLab
