import CacheLab.Decimal.Binary

/-!
# CacheLab.Decimal.Fixed — a fixed number of places

`fixed places x` writes the exact value of `x` rounded to a number of places
after the point, a half going to the even neighbour. All digits before the
point are written, however many there are.
-/

namespace CacheLab.Decimal

/-- The quotient rounded to the nearest whole number, a half to the even one. -/
def roundHalfEven (num den : Nat) : Nat :=
  let floor := num / den
  let twice := 2 * (num % den)
  if twice < den then floor
  else if den < twice then floor + 1
  else if floor % 2 = 0 then floor
  else floor + 1

/-- A number of units of the last place, with the point before the last `places` digits. -/
def placePoint (places units : Nat) : String :=
  let digits := Nat.toDigits 10 units
  let digits := List.replicate (places + 1 - digits.length) '0' ++ digits
  let whole := digits.take (digits.length - places)
  if places = 0 then
    String.ofList whole
  else
    String.ofList whole ++ "." ++ String.ofList (digits.drop (digits.length - places))

/-- A magnitude rounded to `places` places. -/
def Binary.fixed (places : Nat) (b : Binary) : String :=
  let (num, den) := b.quotient
  placePoint places (roundHalfEven (num * Nat.pow 10 places) den)

/-- A number with `places` places. The sign of a positive number is written
only if `plus` holds; the sign of a negative zero is kept. -/
def fixed (places : Nat) (x : Float) (plus : Bool) : String :=
  let sign (negative : Bool) := if negative then "-" else if plus then "+" else ""
  match Parts.ofFloat x with
  | .finite negative magnitude => sign negative ++ magnitude.fixed places
  | .infinite negative => sign negative ++ "inf"
  | .notANumber => "NaN"

end CacheLab.Decimal
