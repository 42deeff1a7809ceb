import CacheLab.Decimal.Binary

/-!
# CacheLab.Decimal.Shortest — the fewest digits that read back

Every real number in a certain interval around a double is read as that double.
`Binary.shortest` finds the decimal number with the fewest digits in this
interval: for one, two, three digits and so on it tries the two neighbours of
the value among the decimal numbers with that many digits. Of two that lie in
the interval it takes the nearer one, and of two at the same distance the even
one.

`Layout` says how the digits are written: where the point stands, and from
which powers of ten on an exponent is used.
-/

namespace CacheLab.Decimal

/-- The number `digits * 10 ^ exponent`. -/
structure Scaled where
  digits : Nat
  exponent : Int
deriving DecidableEq, Repr

/-- The number of decimal digits of a whole number; zero has one digit. -/
def digitCount (n : Nat) : Nat := (Nat.toDigits 10 n).length

/-- The position of the first digit: the greatest `p` with `10 ^ p ≤ num / den`. -/
def leadingPower (num den : Nat) : Int :=
  if den ≤ num then digitCount (num / den) - 1
  else -(digitCount ((den - 1) / num) : Int)

/-- The neighbours of a magnitude among the multiples of `10 ^ k` that read
back as it, the nearest of them first. -/
def Binary.neighbour? (b : Binary) (k : Int) : Option Scaled :=
  -- Everything is measured in a quarter of the last place of the mantissa,
  -- times the powers of two and ten that make all quantities whole.
  let unit := Nat.pow 2 b.exponent.toNat * Nat.pow 10 (-k).toNat
  let value := 4 * b.mantissa * unit
  let low := value - (if b.isBoundary then 1 else 2) * unit
  let high := value + 2 * unit
  let step := 4 * Nat.pow 2 (-b.exponent).toNat * Nat.pow 10 k.toNat
  let even := b.mantissa % 2 = 0
  let reads (d : Nat) : Bool :=
    if even then low ≤ d * step && d * step ≤ high else low < d * step && d * step < high
  let below := value / step
  let above := below + 1
  let down := value - below * step
  let up := above * step - value
  if reads below && reads above then
    if down < up ∨ (down = up ∧ below % 2 = 0) then some ⟨below, k⟩ else some ⟨above, k⟩
  else if reads below then some ⟨below, k⟩
  else if reads above then some ⟨above, k⟩
  else none

/-- Seventeen digits are always enough to read a double back. -/
def enoughDigits : Nat := 17

/-- The shortest decimal number that reads back as a magnitude greater than zero. -/
def Binary.shortest (b : Binary) : Scaled :=
  let (num, den) := b.quotient
  let p := leadingPower num den
  let found := (List.range enoughDigits).findSome? fun (n : Nat) => b.neighbour? (p - n)
  found.getD ⟨num / den, 0⟩

/-- Takes the zeros off the end of the digits, at most `fuel` of them. -/
def Scaled.normalize (d : Scaled) : Nat → Scaled
  | 0 => d
  | fuel + 1 =>
    if d.digits ≠ 0 ∧ d.digits % 10 = 0 then
      Scaled.normalize ⟨d.digits / 10, d.exponent + 1⟩ fuel
    else
      d

/-- How the digits of a number are set. -/
structure Layout where
  /-- The first digit of a number written without an exponent stands for at
  least this power of ten. -/
  plainFrom : Int
  /-- The first digit of a number written without an exponent stands for less
  than this power of ten. -/
  plainBelow : Int

/-- Writes a number by its digits and the power of ten of its first digit. A
point is always written where there is no exponent. -/
def Layout.write (layout : Layout) (d : Scaled) : String :=
  let digits := Nat.toDigits 10 d.digits
  let first : Int := digits.length + d.exponent - 1
  let text := String.ofList
  if layout.plainFrom ≤ first ∧ first < layout.plainBelow then
    if first < 0 then
      "0." ++ text (List.replicate (-first - 1).toNat '0' ++ digits)
    else
      let whole := (first + 1).toNat
      let zeros := List.replicate (whole - digits.length) '0'
      let fraction := if digits.length ≤ whole then ['0'] else digits.drop whole
      text (digits.take whole ++ zeros) ++ "." ++ text fraction
  else
    let fraction := if digits.length = 1 then "" else "." ++ text (digits.drop 1)
    text (digits.take 1) ++ fraction ++ "e" ++ toString first

/-- A number in the fewest digits that read back, set by `layout`. -/
def shortest (layout : Layout) (x : Float) : String :=
  let sign (negative : Bool) := if negative then "-" else ""
  match Parts.ofFloat x with
  | .finite negative magnitude =>
    let d := if magnitude.mantissa = 0 then ⟨0, 0⟩ else magnitude.shortest.normalize enoughDigits
    sign negative ++ layout.write d
  | .infinite negative => sign negative ++ "inf"
  | .notANumber => "NaN"

end CacheLab.Decimal
