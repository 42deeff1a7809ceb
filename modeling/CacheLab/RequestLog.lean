import CacheLab.Csv.Writer
import CacheLab.Files
import CacheLab.RequestLog.Row

/-!
# CacheLab.RequestLog — logs of requests

A request log is comma-separated text: a header and a row for each request.
`RequestLog.entries` reads it row by row, so that a bad row is one entry and
reading goes on behind it; `parse` stops at the first bad row. `RequestLog.write`
writes a log that reads back as the same requests.

A directory holds many logs. They are told by the ending of their names, and
read in the order of their names.
-/

namespace CacheLab

/-- Why a log could not be read. -/
inductive LogError where
  | files (error : OsError)
  | row (position : Csv.Position) (fault : RowFault)
deriving DecidableEq, Repr

namespace LogError

/-- The cause in words. -/
def source : LogError → String
  | files error => error.message
  | row position fault => fault.message position

/-- The error in words. -/
def message : LogError → String
  | files error => s!"I/O error: {error.message}"
  | row position fault => s!"malformed request log: {fault.message position}"

end LogError

/-- A request, or what is wrong in its place. -/
abbrev Entry := Except LogError Request

namespace RequestLog

/-! ## One log -/

/-- The entries of a log. -/
def entries (bytes : List UInt8) : List Entry :=
  match Csv.records bytes with
  | [] => []
  | header :: rows =>
    let names := (Row.texts header).toOption
    rows.map fun row => (Row.read names row).mapError (.row row.position)

/-- The entries of a log that was opened with the given result. A directory can
be opened, but has no entries. -/
def opened : Except OsError ByteArray → List Entry
  | .ok content => entries content.data.toList
  | .error .isADirectory => []
  | .error error => [.error (.files error)]

/-- The requests of a log, or the first thing that is wrong in it. -/
def parse (content : Except OsError ByteArray) : Except LogError (List Request) :=
  (opened content).mapM id

/-- The text of a log; nothing at all if there are no requests. -/
def write (requests : List Request) : String :=
  Csv.table (Column.all.map (·.name)) (requests.map Row.write)

/-! ## Directories of logs -/

/-- The endings of the names of logs. -/
def endings : List String := ["csv", "log", "txt"]

/-- The ending of a file name: what stands behind its last dot, unless that is
its first character. -/
def ending? (name : String) : Option String :=
  let backwards := name.toList.reverse
  match backwards.dropWhile (· ≠ '.') with
  | '.' :: _ :: _ => some (String.ofList (backwards.takeWhile (· ≠ '.')).reverse)
  | _ => none

/-- Whether a file of this name is a log. -/
def isLog (name : String) : Bool := (ending? name).any endings.contains

/-- The logs among the names of files, in order. -/
def select (names : List String) : List String := (names.filter isLog).mergeSort (· ≤ ·)

/-- The path of an entry of a directory. -/
def join (directory name : String) : String :=
  if directory.isEmpty || directory.endsWith "/" then directory ++ name
  else directory ++ "/" ++ name

end RequestLog

end CacheLab
