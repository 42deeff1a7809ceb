import CacheLab.Cache.Call

/-!
# CacheLab.Cache.Shared — a cache that several workers use

A `Shared` cache stands behind one lock. Every call takes the lock once and
does all of its work before it lets go, so what a set of workers does to the
cache is one list of calls: an interleaving of their own lists. `interleave`
builds every such list from the turns that the workers take.
-/

namespace CacheLab

/-- A cache behind one lock. -/
structure Shared (κ ν : Type) [BEq κ] [Hashable κ] where
  inner : Cache κ ν

namespace Shared

variable {κ ν : Type} [DecidableEq κ] [Hashable κ]

/-- Makes one call under the lock. -/
def perform (s : Shared κ ν) (call : Call κ ν) : Answer κ ν × Shared κ ν :=
  let (answer, inner) := s.inner.perform call
  (answer, ⟨inner⟩)

/-- Looks `key` up and applies `f` to the value while the lock is held. -/
def getWith {β : Type} (s : Shared κ ν) (key : κ) (f : ν → β) : Option β × Shared κ ν :=
  let (value, inner) := s.inner.get key
  (value.map f, ⟨inner⟩)

/-- Looks `key` up; the answer is a copy of the value. -/
def get (s : Shared κ ν) (key : κ) : Option ν × Shared κ ν :=
  let (value, inner) := s.inner.get key
  (value, ⟨inner⟩)

/-- Puts `value` under `key`. -/
def put (s : Shared κ ν) (key : κ) (value : ν) : Option (κ × ν) × Shared κ ν :=
  let (entry, inner) := s.inner.put key value
  (entry, ⟨inner⟩)

/-- The number of entries. -/
def size (s : Shared κ ν) : Nat := s.inner.size

/-- How a shared cache is shown: the cache inside, unless the lock is held. -/
def describe (s : Shared κ ν) (locked : Bool) : String :=
  let inner := if locked then "\"<locked>\"" else s.inner.describe
  s!"ConcurrentPolicyCache \x7b inner: {inner} \x7d"

end Shared

/-- Takes the first item of script `i`. -/
def takeTurn {α : Type} (i : Nat) (scripts : List (List α)) : Option (α × List (List α)) :=
  match scripts[i]? with
  | some (item :: rest) => some (item, scripts.set i rest)
  | _ => none

/-- Merges the scripts of several workers: at each turn the named worker takes
one step, if it has one left, and after the last turn the workers finish one
after another. -/
def interleave {α : Type} : List Nat → List (List α) → List α
  | [], scripts => scripts.flatten
  | i :: turns, scripts =>
    match takeTurn i scripts with
    | none => interleave turns scripts
    | some (item, scripts) => item :: interleave turns scripts

/-- The calls of a worker that writes the keys from `first` on, `count` of
them, and reads each key back after writing it if `reads` holds. -/
def writerScript (first count : Nat) (reads : Bool) : List (Call Nat Nat) :=
  (List.range' first count).flatMap fun key =>
    if reads then [.put key key, .get key] else [.put key key]

end CacheLab
