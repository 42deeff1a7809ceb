import CacheLab.Text.Visible

/-!
# CacheLab.Text.Quoted — texts between quotes

`quoted` writes a text between double quotes so that everything in it can be
seen: the usual short escapes, and `\\u` with the code point in braces for any
other character that does not show by itself.
-/

namespace CacheLab.Text

/-- The digits of a number in base sixteen, in lower case. -/
def hexDigits (n : Nat) : String := String.ofList (Nat.toDigits 16 n)

/-- How a character is written between quotes. -/
def escape (c : Char) : String :=
  match c with
  | '\x00' => "\\0"
  | '\t' => "\\t"
  | '\r' => "\\r"
  | '\n' => "\\n"
  | '"' => "\\\""
  | '\\' => "\\\\"
  | c => if isVisible c then c.toString else "\\u\x7b" ++ hexDigits c.toNat ++ "\x7d"

/-- The text between double quotes, with escapes. -/
def quoted (s : String) : String := "\"" ++ String.join (s.toList.map escape) ++ "\""

end CacheLab.Text
