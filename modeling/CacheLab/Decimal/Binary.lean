/-!
# CacheLab.Decimal.Binary — the exact value of a floating-point number

A finite double is a whole number times a power of two. `Binary.ofFloat` reads
sign, number and power off the bits, so that the decimal writers of this folder
work in exact arithmetic.
-/

namespace CacheLab.Decimal

/-- The magnitude of a finite double: `mantissa * 2 ^ exponent`. -/
structure Binary where
  mantissa : Nat
  exponent : Int
deriving DecidableEq, Repr

/-- A double taken apart. -/
inductive Parts where
  | finite (negative : Bool) (magnitude : Binary)
  | infinite (negative : Bool)
  | notANumber
deriving DecidableEq, Repr

/-- The number of mantissas that can be written: 2 to the power of 52. A normal
double has a mantissa that is greater by this number than the one written. -/
def mantissaCount : Nat := 4503599627370496

/-- The number of powers that can be written. The greatest of them marks what is
no number. -/
def powerCount : Nat := 2048

/-- The exponent of the smallest double. -/
def leastExponent : Int := -1074

/-- Reads the parts of a double off its bits. -/
def Parts.ofBits (bits : Nat) : Parts :=
  let negative := bits.testBit 63
  let power := bits / mantissaCount % powerCount
  let fraction := bits % mantissaCount
  if power = powerCount - 1 then
    if fraction = 0 then infinite negative else notANumber
  else if power = 0 then
    finite negative ⟨fraction, leastExponent⟩
  else
    finite negative ⟨mantissaCount + fraction, leastExponent + (power - 1 : Nat)⟩

/-- Takes a double apart. -/
def Parts.ofFloat (x : Float) : Parts := ofBits x.toBits.toNat

namespace Binary

/-- The magnitude as a quotient of two whole numbers. -/
def quotient (b : Binary) : Nat × Nat :=
  (b.mantissa * Nat.pow 2 b.exponent.toNat, Nat.pow 2 (-b.exponent).toNat)

/-- Whether the distance to the next smaller double is half of the distance to
the next greater one. -/
def isBoundary (b : Binary) : Bool :=
  b.mantissa == mantissaCount && leastExponent < b.exponent

end Binary

end CacheLab.Decimal
