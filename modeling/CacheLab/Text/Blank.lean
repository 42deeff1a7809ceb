import CacheLab.Text.CharSet

/-!
# CacheLab.Text.Blank — white space and trimming

The characters with the Unicode property White_Space, and `trim`, which takes
them off both ends of a text.
-/

namespace CacheLab.Text

/-- The characters with the property White_Space. -/
def blanks : CharSet := ⟨#[
  (0x9, 0xd), (0x20, 0x20), (0x85, 0x85), (0xa0, 0xa0), (0x1680, 0x1680), (0x2000, 0x200a),
  (0x2028, 0x2029), (0x202f, 0x202f), (0x205f, 0x205f), (0x3000, 0x3000)]⟩

/-- Whether `c` is white space. -/
def isBlank (c : Char) : Bool := blanks.contains c

/-- Takes white space off both ends of a list of characters. -/
def trimChars (cs : List Char) : List Char :=
  ((cs.dropWhile isBlank).reverse.dropWhile isBlank).reverse

/-- Takes white space off both ends of a text. -/
def trim (s : String) : String := String.ofList (trimChars s.toList)

end CacheLab.Text
