import CacheLab.Word

/-!
# CacheLab.Metrics.Levels — how access counts are spread

A cache that counts accesses keeps a copy of the lowest and the highest count
and of the number of distinct counts, and it counts how often a key moved up.
-/

namespace CacheLab

/-- The spread of the access counts of a cache. -/
structure Levels where
  /-- The lowest count, zero when nothing is cached. -/
  lowest : Nat := 0
  /-- The highest count, zero when nothing is cached. -/
  highest : Nat := 0
  /-- How often a key moved up one count. -/
  increments : Nat := 0
  /-- The number of distinct counts. -/
  active : Nat := 0
deriving DecidableEq, Repr

namespace Levels

/-- Counts a key that moved up one count. -/
def promote (l : Levels) : Levels := { l with increments := l.increments + 1 }

/-- Counts a key that moved up, unless the counter would leave the range of words. -/
def promote? (l : Levels) : Except Overflow Levels := do
  return { l with increments := ← addWords l.increments 1 }

/-- Copies the bounds and the number of the counts. -/
def refresh (l : Levels) (lowest highest : Option Nat) (active : Nat) : Levels :=
  { l with lowest := lowest.getD 0, highest := highest.getD 0, active }

/-- The distance from the lowest to the highest count, zero if they are out of order. -/
def range (l : Levels) : Nat := l.highest - l.lowest

end Levels

end CacheLab
