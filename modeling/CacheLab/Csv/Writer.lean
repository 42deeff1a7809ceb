/-!
# CacheLab.Csv.Writer — rows of comma-separated text

A field is written as it is, or between quotes if it holds a comma, a quote or
a line break; a quote inside quotes is written twice. A row of one empty field
is written as a pair of quotes, because an empty line is no row.
-/

namespace CacheLab.Csv

/-- Whether a field with this character has to stand between quotes. -/
def isSpecial (c : Char) : Bool := c = ',' || c = '"' || c = '\n' || c = '\r'

/-- The characters of a field between quotes, each quote twice. -/
def doubleQuotes : List Char → List Char
  | [] => []
  | c :: rest => if c = '"' then '"' :: '"' :: doubleQuotes rest else c :: doubleQuotes rest

/-- The characters of a field as they are written. -/
def writeField (cs : List Char) : List Char :=
  if cs.any isSpecial then '"' :: doubleQuotes cs ++ ['"'] else cs

/-- The characters of a row of fields, without the line break. -/
def writeRow (fields : List (List Char)) : List Char :=
  match fields with
  | [[]] => ['"', '"']
  | fields => List.intercalate [','] (fields.map writeField)

/-- The text of a row of fields, with the line break. -/
def row (fields : List String) : String :=
  String.ofList (writeRow (fields.map (·.toList))) ++ "\n"

/-- The text of a header and the rows below it; nothing at all if there are no rows. -/
def table (header : List String) (rows : List (List String)) : String :=
  if rows.isEmpty then "" else String.join ((header :: rows).map row)

end CacheLab.Csv
