import Std.Data.HashMap

/-!
# CacheLab.Store — cached values by key

A `Store` holds at most one value under each key. It knows nothing of eviction
order; a cache keeps it in step with a tracker.
-/

namespace CacheLab

/-- A finite map from keys to cached values. -/
structure Store (κ ν : Type) [BEq κ] [Hashable κ] where
  map : Std.HashMap κ ν := ∅

namespace Store

variable {κ ν : Type} [BEq κ] [Hashable κ]

/-- The store that holds nothing. -/
def empty : Store κ ν := {}

instance : EmptyCollection (Store κ ν) := ⟨empty⟩

/-- The number of keys with a value. -/
def size (s : Store κ ν) : Nat := s.map.size

/-- Whether no key has a value. -/
def isEmpty (s : Store κ ν) : Bool := s.size == 0

/-- The value under `key`. -/
def get? (s : Store κ ν) (key : κ) : Option ν := s.map[key]?

/-- Whether `key` has a value. -/
def contains (s : Store κ ν) (key : κ) : Bool := s.map.contains key

/-- Puts `value` under `key`. -/
def insert (s : Store κ ν) (key : κ) (value : ν) : Store κ ν := ⟨s.map.insert key value⟩

/-- Puts `value` under `key` and answers the value it replaces. -/
def set (s : Store κ ν) (key : κ) (value : ν) : Option ν × Store κ ν :=
  (s.get? key, s.insert key value)

/-- Changes the value under `key`, if there is one. -/
def modify (s : Store κ ν) (key : κ) (f : ν → ν) : Store κ ν := ⟨s.map.modify key f⟩

/-- Takes `key` out and answers its value. -/
def remove (s : Store κ ν) (key : κ) : Option ν × Store κ ν :=
  (s.get? key, ⟨s.map.erase key⟩)

/-- Takes every key out. -/
def clear (_ : Store κ ν) : Store κ ν := empty

/-- The pairs of key and value, in no particular order. -/
def toList (s : Store κ ν) : List (κ × ν) := s.map.toList

/-- The keys that have a value, in no particular order. -/
def keys (s : Store κ ν) : List κ := s.map.keys

/-- How a store is shown: by its size alone. -/
def describe (s : Store κ ν) : String := s!"ValueStore \x7b len: {s.size} \x7d"

end Store

end CacheLab
