/-!
# CacheLab.Text.Padded — texts of a given width

A `Field` says how a text is set in a column: it is cut to `precision`
characters and then filled up to `width` characters on the side that `align`
names. In the middle, an odd character of filling goes to the right. Widths and
precisions that come from outside are checked by `Field.check`.
-/

namespace CacheLab.Text

/-- Where a text stands in its column. -/
inductive Align where
  | left
  | right
  | center
deriving DecidableEq, Repr

/-- How a text is set in a column. -/
structure Field where
  width : Nat := 0
  precision : Option Nat := none
  align : Align := .left
  fill : Char := ' '
deriving DecidableEq, Repr

/-- Why a text cannot be set in a column. -/
inductive FieldError where
  /-- The width or the precision is beyond `Field.limit`. -/
  | tooLarge
deriving DecidableEq, Repr

/-- The error in words. -/
def FieldError.message : FieldError → String
  | tooLarge => "Formatting argument out of range"

/-- The greatest width, and the greatest precision. -/
def Field.limit : Nat := 65535

/-- The field itself, if its width and its precision are within the limit. -/
def Field.check (f : Field) : Except FieldError Field :=
  if f.width ≤ limit ∧ f.precision.getD 0 ≤ limit then .ok f else .error .tooLarge

/-- Sets a list of characters in a column. -/
def Field.setChars (f : Field) (cs : List Char) : List Char :=
  let cs := f.precision.elim cs fun n => cs.take n
  let gap := f.width - cs.length
  let before :=
    match f.align with
    | .left => 0
    | .right => gap
    | .center => gap / 2
  List.replicate before f.fill ++ cs ++ List.replicate (gap - before) f.fill

/-- Sets a text in a column. -/
def Field.set (f : Field) (s : String) : String := String.ofList (f.setChars s.toList)

/-- A text at the left of a column of `width` characters. -/
def padRight (width : Nat) (s : String) : String := Field.set { width } s

/-- A text at the right of a column of `width` characters. -/
def padLeft (width : Nat) (s : String) : String := Field.set { width, align := .right } s

end CacheLab.Text
