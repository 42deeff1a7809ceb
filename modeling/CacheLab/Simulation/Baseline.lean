/-!
# CacheLab.Simulation.Baseline — a plain bounded list by recency

The simplest cache that evicts the least recently used entry: one list of
pairs, most recently used first, of at most `capacity` pairs. The cache under
the policy `lru` is checked against it.
-/

namespace CacheLab

/-- At most `capacity` pairs of key and value, most recently used first. -/
structure Baseline (κ ν : Type) where
  capacity : Nat
  pairs : List (κ × ν) := []
deriving Repr

namespace Baseline

variable {κ ν : Type} [DecidableEq κ]

/-- The number of pairs. -/
def size (b : Baseline κ ν) : Nat := b.pairs.length

/-- The pairs without those of `key`. -/
def without (b : Baseline κ ν) (key : κ) : List (κ × ν) := b.pairs.filter (·.1 ≠ key)

/-- Looks `key` up and moves its pair to the front. -/
def get (b : Baseline κ ν) (key : κ) : Option ν × Baseline κ ν :=
  match b.pairs.lookup key with
  | none => (none, b)
  | some value => (some value, { b with pairs := (key, value) :: b.without key })

/-- Puts `value` under `key` at the front. The answer is the pair that had the
key before, or else the last pair, if it had to make room. -/
def push (b : Baseline κ ν) (key : κ) (value : ν) : Option (κ × ν) × Baseline κ ν :=
  match b.pairs.lookup key with
  | some old => (some (key, old), { b with pairs := (key, value) :: b.without key })
  | none =>
    if b.size < b.capacity then
      (none, { b with pairs := (key, value) :: b.pairs })
    else
      (b.pairs.getLast?, { b with pairs := (key, value) :: b.pairs.dropLast })

/-- The pairs in the order in which they would leave. -/
def leaving (b : Baseline κ ν) : List (κ × ν) := b.pairs.reverse

end Baseline

end CacheLab
