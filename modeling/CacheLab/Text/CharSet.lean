/-!
# CacheLab.Text.CharSet — sets of characters as ranges of code points

A `CharSet` lists inclusive ranges of code points in ascending order; the tables
of character properties in this folder are such lists.
-/

namespace CacheLab.Text

/-- A set of characters, given by ascending inclusive ranges of code points. -/
structure CharSet where
  ranges : Array (Nat × Nat)

/-- Whether `c` lies in one of the ranges: the first range that does not end
before `c` decides. -/
def CharSet.contains (s : CharSet) (c : Char) : Bool :=
  (s.ranges.find? fun (_, last) => c.toNat ≤ last).any fun (first, _) => first ≤ c.toNat

end CacheLab.Text
