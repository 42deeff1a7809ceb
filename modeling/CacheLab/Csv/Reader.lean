/-!
# CacheLab.Csv.Reader — records of comma-separated text

The reader cuts bytes into records of fields. It goes through the bytes once:
`Place` says where it stands, and `Scan.step` takes it over one byte.

* A record ends at a newline or a carriage return. In front of a record, more of
  these are skipped, and so are comments, which run from a `#` to a newline.
* A field whose very first byte is a quote goes on to the next quote that is not
  written twice; the rest of the field, up to a comma or the end of the record,
  is taken as it is. In other fields quotes mean nothing.
* At the end of the text, a record that has begun ends too; in the middle of a
  comment, this is a record of one empty field.

A record knows its `Position`, so that a fault in it can be reported.
-/

namespace CacheLab.Csv

/-! ## Bytes with a meaning -/

/-- The byte between two fields. -/
def comma : UInt8 := ','.toUInt8

/-- The byte around a quoted field. -/
def quote : UInt8 := '"'.toUInt8

/-- The byte that begins a comment. -/
def hash : UInt8 := '#'.toUInt8

/-- The byte that ends a line. -/
def newline : UInt8 := '\n'.toUInt8

/-- The byte that stands before a newline, or alone, at the end of a record. -/
def carriageReturn : UInt8 := '\r'.toUInt8

/-- Whether a byte ends a record. -/
def isBreak (b : UInt8) : Bool := b = newline || b = carriageReturn

/-- The bytes of a mark of the encoding, which may stand at the start of a text. -/
def byteOrderMark : List UInt8 := [0xEF, 0xBB, 0xBF]

/-! ## Records -/

/-- Where a record begins: right behind the byte that ended the one before. -/
structure Position where
  /-- The number of records before. -/
  record : Nat := 0
  /-- The number of bytes before. -/
  byte : Nat := 0
  /-- One more than the number of newlines before. -/
  line : Nat := 1
deriving DecidableEq, Repr

/-- The fields of a record as bytes. -/
structure Record where
  position : Position
  fields : List (List UInt8)
deriving DecidableEq, Repr

/-! ## Scanning -/

/-- Where the reader stands. -/
inductive Place where
  /-- In front of a record. -/
  | between
  /-- In a comment. -/
  | comment
  /-- Behind a comma. -/
  | fieldStart
  /-- In a field, outside of quotes. -/
  | plain
  /-- Between quotes. -/
  | quoted
  /-- Behind a quote that ends the quotes, unless it is the first of two. -/
  | quoteEnd
deriving DecidableEq, Repr

/-- What the reader has seen. -/
structure Scan where
  place : Place := .between
  /-- The bytes of the field so far, last first. -/
  field : List UInt8 := []
  /-- The fields of the record so far, last first. -/
  fields : List (List UInt8) := []
  /-- Where the record begins. -/
  start : Position := {}
  /-- The number of bytes so far. -/
  byte : Nat := 0
  /-- The number of the line so far. -/
  line : Nat := 1
  /-- The complete records. -/
  records : Array Record := #[]
deriving DecidableEq, Repr

namespace Scan

/-- Counts a byte. -/
def advance (s : Scan) (b : UInt8) : Scan :=
  { s with byte := s.byte + 1, line := if b = newline then s.line + 1 else s.line }

/-- Takes a byte into the field. -/
def keep (s : Scan) (b : UInt8) (place : Place) : Scan :=
  { s with field := b :: s.field, place }

/-- Ends the field. -/
def endField (s : Scan) : Scan :=
  { s with field := [], fields := s.field.reverse :: s.fields, place := .fieldStart }

/-- Ends the field and with it the record. -/
def endRecord (s : Scan) : Scan :=
  let start := { record := s.records.size + 1, byte := s.byte, line := s.line }
  { s with
    place := .between, field := [], fields := [], start
    records := s.records.push ⟨s.start, (s.field.reverse :: s.fields).reverse⟩ }

/-- Reads a byte outside of quotes. -/
def plainByte (s : Scan) (b : UInt8) : Scan :=
  if b = comma then s.endField
  else if isBreak b then s.endRecord
  else s.keep b .plain

/-- Reads the first byte of a field. -/
def firstByte (s : Scan) (b : UInt8) : Scan :=
  if b = quote then { s with place := .quoted } else s.plainByte b

/-- Reads a byte at the place where the reader stands. -/
def read (s : Scan) (b : UInt8) : Scan :=
  match s.place with
  | .between =>
    if isBreak b then s
    else if b = hash then { s with place := .comment }
    else s.firstByte b
  | .comment => if b = newline then { s with place := .between } else s
  | .fieldStart => s.firstByte b
  | .plain => s.plainByte b
  | .quoted => if b = quote then { s with place := .quoteEnd } else s.keep b .quoted
  | .quoteEnd => if b = quote then s.keep b .quoted else s.plainByte b

/-- Counts a byte and reads it. -/
def step (s : Scan) (b : UInt8) : Scan := (s.advance b).read b

/-- Ends the record that has begun, if there is one. A comment without a newline
counts as the beginning of a record. -/
def finish (s : Scan) : Scan :=
  match s.place with
  | .between => s
  | .comment | .fieldStart | .plain | .quoted | .quoteEnd => s.endRecord

end Scan

/-- The scan at the start of a text, and the text behind the mark of the
encoding, whose bytes count. -/
def start (bytes : List UInt8) : Scan × List UInt8 :=
  if byteOrderMark.isPrefixOf bytes then
    let n := byteOrderMark.length
    ({ start := { byte := n }, byte := n }, bytes.drop n)
  else
    ({}, bytes)

/-- The records of a text. -/
def records (bytes : List UInt8) : List Record :=
  let (scan, rest) := start bytes
  (rest.foldl Scan.step scan).finish.records.toList

end CacheLab.Csv
