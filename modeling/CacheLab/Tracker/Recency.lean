import Std.Data.HashMap
import CacheLab.ArenaList
import CacheLab.Inconsistency
import CacheLab.Text.Bracketed

/-!
# CacheLab.Tracker.Recency — keys by their last use

The keys stand in one list from the most recently used to the least recently
used, and an index finds the node of each key. An insertion or an access puts
its key at the front; the victim is the last key.
-/

namespace CacheLab

/-- Keys from the most to the least recently used. -/
structure Recency (κ : Type) [BEq κ] [Hashable κ] where
  order : ArenaList κ := .empty
  index : Std.HashMap κ Handle := ∅

namespace Recency

variable {κ : Type} [DecidableEq κ] [Hashable κ]

/-- The tracker of no keys. -/
def empty : Recency κ := {}

/-- The number of tracked keys. -/
def size (t : Recency κ) : Nat := t.index.size

/-- Whether `key` is tracked. -/
def contains (t : Recency κ) (key : κ) : Bool := t.index.contains key

/-- The tracked keys, most recently used first. -/
def keys (t : Recency κ) : List κ := t.order.toList

/-- The key that leaves next. -/
def victim? (t : Recency κ) : Option κ := t.order.back?

/-- Makes a tracked key the most recently used; an untracked one is ignored. -/
def access (t : Recency κ) (key : κ) : Recency κ :=
  match t.index[key]? with
  | none => t
  | some h => { t with order := (t.order.moveToFront h).2 }

/-- Tracks `key` as the most recently used. -/
def insert (t : Recency κ) (key : κ) : Recency κ :=
  match t.index[key]? with
  | some h => { t with order := (t.order.moveToFront h).2 }
  | none =>
    let (h, order) := t.order.pushFront key
    { order, index := t.index.insert key h }

/-- Takes the victim out and answers it. -/
def evict (t : Recency κ) : Option κ × Recency κ :=
  match t.order.popBack with
  | (none, order) => (none, { t with order })
  | (some key, order) => (some key, { order, index := t.index.erase key })

/-- Takes `key` out and answers whether it was tracked. -/
def remove (t : Recency κ) (key : κ) : Bool × Recency κ :=
  match t.index[key]? with
  | none => (false, t)
  | some h => (true, { order := (t.order.remove h).2, index := t.index.erase key })

/-- Forgets every key. -/
def clear (_ : Recency κ) : Recency κ := empty

/-- The first listed key whose index entry is missing or names another node. -/
def fault? (t : Recency κ) : Option Inconsistency :=
  if t.order.length ≠ t.index.size then
    some .recencyLength
  else
    t.keys.findSome? fun key =>
      match t.index[key]? with
      | none => some .recencyKeyMissing
      | some h => if t.order.get? h = some key then none else some .recencyWrongNode

/-- How a tracker is shown: by its keys in order. -/
def describe (t : Recency κ) (showKey : κ → String) : String :=
  s!"LruTracker \x7b order: {Text.bracketed (t.keys.map showKey)} \x7d"

end Recency

end CacheLab
