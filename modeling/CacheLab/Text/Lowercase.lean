import CacheLab.Text.Letters

/-!
# CacheLab.Text.Lowercase — lower case

`lowercase` maps each character to its lower-case form. Two characters need
more than a table: a capital I with a dot becomes two characters, and a capital
sigma takes its final form at the end of a word, that is, with a letter before
it and none behind it, looking past ignorable characters on both sides.
-/

namespace CacheLab.Text

/-- The lower-case form of a character by itself. -/
def lowerChar (c : Char) : Char :=
  match lowerRows.find? fun (first, last, step, _) =>
      first ≤ c.toNat && c.toNat ≤ last && (c.toNat - first) % step == 0 with
  | some (first, _, _, target) => Char.ofNat (target + (c.toNat - first))
  | none => c

/-- Whether the first character that is not ignorable is a letter with case. -/
def startsCased (cs : List Char) : Bool :=
  (cs.dropWhile caseIgnorable.contains).head?.any cased.contains

/-- Lower case of a text, where `letterBefore` tells whether a letter with case
stands before it. -/
def lowerFrom (letterBefore : Bool) : List Char → List Char
  | [] => []
  | c :: rest =>
    let lowered :=
      if c = 'Σ' then [if letterBefore && !startsCased rest then 'ς' else 'σ']
      else if c = 'İ' then ['i', '\u0307']
      else [lowerChar c]
    let letterBefore := if caseIgnorable.contains c then letterBefore else cased.contains c
    lowered ++ lowerFrom letterBefore rest

/-- The text in lower case. -/
def lowercase (s : String) : String := String.ofList (lowerFrom false s.toList)

end CacheLab.Text
