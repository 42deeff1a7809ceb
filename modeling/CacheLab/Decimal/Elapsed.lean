import CacheLab.Decimal.Fixed

/-!
# CacheLab.Decimal.Elapsed — spans of time

A span is written with two places in the greatest of the units second,
millisecond, microsecond and nanosecond that it contains.
-/

namespace CacheLab.Decimal

/-- A span of nanoseconds as text. -/
def elapsed (nanos : Nat) : String :=
  let written (unit : Nat) (name : String) : String :=
    placePoint 2 (roundHalfEven (nanos * 100) unit) ++ name
  if 1000000000 ≤ nanos then written 1000000000 "s"
  else if 1000000 ≤ nanos then written 1000000 "ms"
  else if 1000 ≤ nanos then written 1000 "µs"
  else written 1 "ns"

end CacheLab.Decimal
