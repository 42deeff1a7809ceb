import CacheLab.Text.Quoted

/-!
# CacheLab.Files — a tree of files

A `FileTree` is a file with its content or a directory with named entries. The
operations `read`, `files`, `write` and `makeDirectories` take a path relative
to the root of the tree and fail with an `OsError`, as the calls of an operating
system do. A path is a list of names between slashes; a single dot stands for
the directory itself and two dots for the one above, and only directories can be
passed through. Names and paths have a greatest length.
-/

namespace CacheLab

/-- Why an operation on files failed. -/
inductive OsError where
  | notFound
  | alreadyExists
  | notADirectory
  | isADirectory
  | nameTooLong
  /-- A path has a character that no name can have. It never gets to the
  operating system, so the error has no number. -/
  | invalidName
  /-- Any other failure, with its number, the name of its kind and its text. -/
  | other (code : Nat) (kind reason : String)
deriving DecidableEq, Repr

namespace OsError

/-- The number of the error, if it has one. -/
def code? : OsError → Option Nat
  | notFound => some 2
  | alreadyExists => some 17
  | notADirectory => some 20
  | isADirectory => some 21
  | nameTooLong => some 36
  | invalidName => none
  | other code _ _ => some code

/-- The name of the kind of the error. -/
def kind : OsError → String
  | notFound => "NotFound"
  | alreadyExists => "AlreadyExists"
  | notADirectory => "NotADirectory"
  | isADirectory => "IsADirectory"
  | nameTooLong => "InvalidFilename"
  | invalidName => "InvalidInput"
  | other _ kind _ => kind

/-- The error in words. -/
def reason : OsError → String
  | notFound => "No such file or directory"
  | alreadyExists => "File exists"
  | notADirectory => "Not a directory"
  | isADirectory => "Is a directory"
  | nameTooLong => "File name too long"
  | invalidName => "file name contained an unexpected NUL byte"
  | other _ _ reason => reason

/-- The error in words, and with its number if it has one. -/
def message (e : OsError) : String :=
  match e.code? with
  | some code => s!"{e.reason} (os error {code})"
  | none => e.reason

/-- The error as a structure of its parts. -/
def describe (e : OsError) : String :=
  let kindAndMessage := s!"kind: {e.kind}, message: {Text.quoted e.reason}"
  match e.code? with
  | some code => s!"Os \x7b code: {code}, {kindAndMessage} \x7d"
  | none => s!"Error \x7b {kindAndMessage} \x7d"

end OsError

/-- A file or a directory. -/
inductive FileTree where
  | file (content : ByteArray)
  | directory (entries : List (String × FileTree))

namespace FileTree

/-- A directory without entries. -/
def empty : FileTree := directory []

/-- Whether this is a regular file. -/
def isFile : FileTree → Bool
  | file _ => true
  | directory _ => false

/-- Gives a name to a tree, in the place of what had the name before. -/
def assign (name : String) (t : FileTree) (entries : List (String × FileTree)) :
    List (String × FileTree) :=
  if (entries.lookup name).isSome then
    entries.map fun e => if e.1 = name then (name, t) else e
  else
    entries ++ [(name, t)]

/-- Places `new` at the end of a list of names; what is missing on the way is made. -/
def place : FileTree → List String → FileTree → FileTree
  | _, [], new => new
  | file content, _ :: _, _ => file content
  | directory entries, name :: rest, new =>
    directory (assign name (((entries.lookup name).getD empty).place rest new) entries)

/-- Takes away what stands at the end of a list of names. -/
def erase : FileTree → List String → FileTree
  | directory entries, [name] => directory (entries.filter (·.1 ≠ name))
  | directory entries, name :: rest =>
    match entries.lookup name with
    | some t => directory (assign name (t.erase rest) entries)
    | none => directory entries
  | t, _ => t

/-! ## Paths -/

/-- The greatest number of bytes of a name. -/
def nameLimit : Nat := 255

/-- The greatest number of bytes of a path. -/
def pathLimit : Nat := 4095

/-- The names of a path. Absolute paths and the empty one lead nowhere in a tree. -/
def names (path : String) : Except OsError (List String) :=
  if path.toList.contains '\x00' then .error .invalidName
  else if path.isEmpty || path.startsWith "/" then .error .notFound
  else if pathLimit < path.utf8ByteSize then .error .nameTooLong
  else .ok ((path.splitOn "/").filter (· ≠ ""))

/-- Whether a name stands for a directory on the way, and not for an entry of one. -/
def isDots (name : String) : Bool := name = "." || name = ".."

/-- The way from the root of a tree to a place, the last step first: names, and
what stands there. Only at the last step there may be nothing. -/
abbrev Way := List (String × Option FileTree)

/-- What stands at the end of a way. -/
def standing (t : FileTree) : Way → Option FileTree
  | [] => some t
  | (_, found) :: _ => found

/-- Goes on along names. -/
def follow (t : FileTree) (way : Way) : List String → Except OsError Way
  | [] => .ok way
  | name :: rest =>
    match t.standing way with
    | none => .error .notFound
    | some (file _) => .error .notADirectory
    | some (directory entries) =>
      if name = "." then follow t way rest
      else if name = ".." then follow t way.tail rest
      else if nameLimit < name.utf8ByteSize then .error .nameTooLong
      else follow t ((name, entries.lookup name) :: way) rest

/-- What names lead to. -/
def find (t : FileTree) (names : List String) : Except OsError FileTree := do
  match t.standing (← t.follow [] names) with
  | some found => return found
  | none => throw .notFound

/-- What a path leads to. A slash at the end asks for a directory. -/
def get (t : FileTree) (path : String) : Except OsError FileTree := do
  let names ← names path
  t.find (if path.endsWith "/" then names ++ ["."] else names)

/-- The directory that holds the entry at the end of names: its place and its entries. -/
def holder (t : FileTree) (names : List String) :
    Except OsError (List String × List (String × FileTree)) := do
  let way ← t.follow [] names.dropLast
  match t.standing way with
  | none => throw .notFound
  | some (file _) => throw .notADirectory
  | some (directory entries) => return ((way.map (·.1)).reverse, entries)

/-! ## Reading and writing -/

/-- The content of a file. -/
def read (t : FileTree) (path : String) : Except OsError ByteArray := do
  match ← t.get path with
  | file content => return content
  | directory _ => throw .isADirectory

/-- The names of the regular files in a directory. -/
def files (t : FileTree) (path : String) : Except OsError (List String) := do
  match ← t.get path with
  | file _ => throw .notADirectory
  | directory entries => return (entries.filter (·.2.isFile)).map (·.1)

/-- Gives a file the content, and makes it if there is none. -/
def write (t : FileTree) (path : String) (content : ByteArray) : Except OsError FileTree := do
  let names ← names path
  let (here, entries) ← t.holder names
  let name := names.getLast?.getD "."
  if path.endsWith "/" || isDots name || (entries.lookup name).any (!·.isFile) then
    throw .isADirectory
  if nameLimit < name.utf8ByteSize then throw .nameTooLong
  return t.place (here ++ [name]) (file content)

/-! ## Making directories -/

/-- Makes a directory, in one that is there. -/
def makeDirectory (t : FileTree) (names : List String) : Except OsError FileTree := do
  let (here, entries) ← t.holder names
  let name := names.getLast?.getD "."
  if isDots name || (entries.lookup name).isSome then throw .alreadyExists
  if nameLimit < name.utf8ByteSize then throw .nameTooLong
  return t.place (here ++ [name]) empty

/-- Makes a directory, in one that is there, unless it is there itself. -/
def ensureDirectory (t : FileTree) (names : List String) : Except OsError FileTree :=
  match t.makeDirectory names, t.find names with
  | .error .alreadyExists, .ok (directory _) => .ok t
  | result, _ => result

/-- Makes a directory. If there is none to make it in, that one is made before,
for which names are given likewise, the longest first. -/
def ensureAll (t : FileTree) : List (List String) → Except OsError FileTree
  | [] => .ok t
  | names :: above =>
    match t.ensureDirectory names with
    | .error .notFound => do (← t.ensureAll above).ensureDirectory names
    | result => result

/-- Makes a directory and the ones above it, where there are none. Which ones
are above it is read off the path: a single dot does not count as a name, and two
dots count as one like any other. -/
def makeDirectories (t : FileTree) (path : String) : Except OsError FileTree := do
  let names ← names path
  let counted := names.filter (· ≠ ".")
  t.ensureAll (names :: (List.range counted.length).reverse.map counted.take)

end FileTree

end CacheLab
