/-!
# CacheLab.Numeral — reading whole numbers

`Numeral.read base limit` reads the digits of a number below `limit`, from left
to right. A plus sign may stand in front. The first digit at which something is
wrong decides what is reported.
-/

namespace CacheLab

/-- Why a text is not a number. -/
inductive NumeralError where
  | empty
  | badDigit
  | tooLarge
deriving DecidableEq, Repr

/-- The error in words. -/
def NumeralError.message : NumeralError → String
  | empty => "cannot parse integer from empty string"
  | badDigit => "invalid digit found in string"
  | tooLarge => "number too large to fit in target type"

namespace Numeral

/-- The value of a digit in a base of at most sixteen. -/
def digit? (base : Nat) (c : Char) : Option Nat :=
  let value? :=
    if '0' ≤ c ∧ c ≤ '9' then some (c.toNat - '0'.toNat)
    else if 'a' ≤ c ∧ c ≤ 'f' then some (c.toNat - 'a'.toNat + 10)
    else if 'A' ≤ c ∧ c ≤ 'F' then some (c.toNat - 'A'.toNat + 10)
    else none
  value?.filter (· < base)

/-- Reads digits behind others, whose value is `n`. -/
def readDigits (base limit : Nat) : List Char → Nat → Except NumeralError Nat
  | [], n => .ok n
  | c :: rest, n =>
    match digit? base c with
    | none => .error .badDigit
    | some d =>
      if n * base + d < limit then readDigits base limit rest (n * base + d) else .error .tooLarge

/-- Reads a number below `limit`. -/
def read (base limit : Nat) (cs : List Char) : Except NumeralError Nat :=
  match cs with
  | [] => .error .empty
  | ['+'] => .error .badDigit
  | '+' :: digits => readDigits base limit digits 0
  | digits => readDigits base limit digits 0

end Numeral

end CacheLab
