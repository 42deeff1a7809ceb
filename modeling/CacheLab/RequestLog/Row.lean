import CacheLab.Csv.Reader
import CacheLab.Numeral
import CacheLab.Simulation.Request
import CacheLab.Text.Blank
import CacheLab.Text.Utf8
import CacheLab.Word

/-!
# CacheLab.RequestLog.Row — requests as rows

A row of a request log holds the four parts of a request in the columns
`timestamp`, `key`, `size` and `ttl`, in the order of the header. Columns with
other names are passed over, and so are fields beyond the header; a log without
the column `ttl` has requests that never expire. A header that is not text names
no columns: then the fields are taken in the order above.

Fields are read from left to right, and the first fault of a row is reported.
-/

namespace CacheLab

/-- A column of a request log. -/
inductive Column where
  | timestamp
  | key
  | size
  | ttl
deriving DecidableEq, Repr

namespace Column

/-- Every column, in the order in which logs are written. -/
def all : List Column := [timestamp, key, size, ttl]

/-- The name of the column in a header. -/
def name : Column → String
  | timestamp => "timestamp"
  | key => "key"
  | size => "size"
  | ttl => "ttl"

/-- The column with a name. -/
def named? (name : String) : Option Column := all.find? (·.name = name)

end Column

/-- Why a row is not a request. -/
inductive RowFault where
  /-- The bytes of a field are not text, after a number of bytes that are. -/
  | notText (field offset : Nat)
  | notANumber (field : Nat) (error : NumeralError)
  /-- The row ends before the header does. -/
  | endOfRow
  | missing (column : Column)
  | duplicate (column : Column)
  /-- The row has too few fields to be read without a header. -/
  | tooShort (fields : Nat)
deriving DecidableEq, Repr

namespace RowFault

/-- The fault in words, with the position of the row. -/
def message (p : Csv.Position) (fault : RowFault) : String :=
  let row (text : String) : String :=
    s!"CSV deserialize error: record {p.record} (line: {p.line}, byte: {p.byte}): {text}"
  match fault with
  | notText field offset =>
    s!"CSV parse error: record {p.record} (line {p.line}, field: {field}, byte: {p.byte}): " ++
      s!"invalid utf-8: invalid UTF-8 in field {field} near byte index {offset}"
  | notANumber field error => row s!"field {field}: {error.message}"
  | endOfRow => row "expected field, but got end of row"
  | missing column => row ("missing field `" ++ column.name ++ "`")
  | duplicate column => row ("duplicate field `" ++ column.name ++ "`")
  | tooShort fields => row s!"invalid length {fields}, expected struct Request with 4 elements"

end RowFault

namespace Row

/-! ## Fields -/

/-- Whether a byte is white space by itself. -/
def isBlankByte (b : UInt8) : Bool := b = 32 || b = 9 || b = 10 || b = 12 || b = 13

/-- Takes white space off both ends of a field. -/
def trimBytes (bytes : List UInt8) : List UInt8 :=
  ((bytes.dropWhile isBlankByte).reverse.dropWhile isBlankByte).reverse

/-- The text of the field with number `i`, without white space around it. -/
def text (i : Nat) (bytes : List UInt8) : Except RowFault String :=
  match Text.Utf8.decode (trimBytes bytes) with
  | .ok cs => .ok (String.ofList (Text.trimChars cs))
  | .error offset => .error (.notText i offset)

/-- The texts of the fields of a record. -/
def texts (r : Csv.Record) : Except RowFault (List String) :=
  r.fields.zipIdx.mapM fun (field, i) => text i field

/-- Reads a word: after `0x` in base sixteen, otherwise in base ten. -/
def word (cs : List Char) : Except NumeralError Nat :=
  match cs with
  | '0' :: 'x' :: digits => Numeral.read 16 wordCount digits
  | digits => Numeral.read 10 wordCount digits

/-- The number in the field with number `i`. -/
def number (i : Nat) (field : String) : Except RowFault Nat :=
  (word field.toList).mapError (.notANumber i)

/-! ## Rows under a header -/

/-- The parts of a request that have been read. -/
structure Draft where
  timestamp : Option Nat := none
  key : Option String := none
  size : Option Nat := none
  ttl : Option Nat := none
deriving DecidableEq, Repr

namespace Draft

/-- Whether a column has been read. -/
def has (d : Draft) : Column → Bool
  | .timestamp => d.timestamp.isSome
  | .key => d.key.isSome
  | .size => d.size.isSome
  | .ttl => d.ttl.isSome

/-- Reads the field with number `i` into a column. -/
def set (d : Draft) (i : Nat) (field : String) : Column → Except RowFault Draft
  | .timestamp => return { d with timestamp := some (← number i field) }
  | .key => return { d with key := some field }
  | .size => return { d with size := some (← number i field) }
  | .ttl => return { d with ttl := some (← number i field) }

/-- The request, if nothing but the time to live is missing. -/
def request (d : Draft) : Except RowFault Request := do
  let some timestamp := d.timestamp | throw (.missing .timestamp)
  let some key := d.key | throw (.missing .key)
  let some size := d.size | throw (.missing .size)
  return { timestamp, key, size, ttl := d.ttl.getD 0 }

/-- Reads fields under the names of a header, the first of them with number `i`. -/
def fill (d : Draft) (i : Nat) : List String → List String → Except RowFault Draft
  | [], _ => .ok d
  | name :: header, fields =>
    match Column.named? name, fields with
    | none, [] => .error .endOfRow
    | none, _ :: fields => d.fill (i + 1) header fields
    | some column, fields =>
      if d.has column then .error (.duplicate column)
      else
        match fields with
        | [] => .error .endOfRow
        | field :: fields => do (← d.set i field column).fill (i + 1) header fields

end Draft

/-- Reads a row under a header. -/
def readNamed (header fields : List String) : Except RowFault Request := do
  (← Draft.fill {} 0 header fields).request

/-! ## Rows without a header -/

/-- Reads a row by the order of its fields. -/
def readPlaced (fields : List String) : Except RowFault Request := do
  let field (i : Nat) : Except RowFault String :=
    match fields[i]? with
    | some field => .ok field
    | none => .error (.tooShort i)
  let timestamp ← number 0 (← field 0)
  let key ← field 1
  let size ← number 2 (← field 2)
  let ttl ← match fields[3]? with
    | some field => number 3 field
    | none => .ok 0
  return { timestamp, key, size, ttl }

/-- Reads a row, given the names of the header if it has any. -/
def read (header : Option (List String)) (r : Csv.Record) : Except RowFault Request := do
  let fields ← texts r
  match header with
  | some header => readNamed header fields
  | none => readPlaced fields

/-- The fields of a request in the order of the columns. -/
def write (r : Request) : List String :=
  [toString r.timestamp, r.key, toString r.size, toString r.ttl]

end Row

end CacheLab
