import Std.Time.DateTime.Timestamp
import CacheLab.Program

/-!
# CacheLab.Main — the program on a real machine

The host of this module uses the clocks, the files and the output of the machine
that the program runs on. Directories are not listed: where the names of the
logs in a directory are needed, they are read from the standard input, one on
each line, so that a simulation is started with the list of its logs piped in.

Workers that share a cache take turns at random.
-/

namespace CacheLab.Main

/-- The cause of a failed operation. -/
def osError : IO.Error → OsError
  | .noFileOrDirectory _ _ _ => .notFound
  | .alreadyExists _ _ _ => .alreadyExists
  | .inappropriateType _ code reason =>
    if code = 20 then .notADirectory
    else if code = 21 then .isADirectory
    else .other code.toNat "Other" reason
  | .permissionDenied _ code reason => .other code.toNat "PermissionDenied" reason
  | .otherError code reason => .other code.toNat "Other" reason
  | error => .other 0 "Other" (toString error)

/-- Carries out an operation on files. -/
def attempt {α : Type} (operation : IO α) : IO (Except OsError α) := do
  try return .ok (← operation)
  catch e => return .error (osError e)

/-- Whether a path leads to something whose content can be read. -/
def isReadable (path : String) : IO Bool := do
  let handle ← IO.FS.Handle.mk path .read
  try
    let _ ← handle.read 1
    return true
  catch _ => return false

/-- The names on the standard input that are files in a directory. -/
def files (directory : String) : IO (List String) := do
  if ← isReadable directory then
    throw (.inappropriateType none 20 OsError.notADirectory.reason)
  let lines ← (← IO.getStdin).lines
  lines.toList.filterM fun name => do
    try isReadable (RequestLog.join directory name)
    catch _ => return false

/-- A key made of random bytes. -/
def randomKey : IO Random.Key := do
  let bytes ← IO.getRandomBytes 32
  return Vector.ofFn fun i : Fin 8 =>
    (List.range 4).foldl (fun word j => word * 256 + (bytes[4 * i.val + j]?.getD 0).toUInt32) 0

/-- The random numbers of a key. -/
def draw (key : Random.Key) (i : Nat) : Nat :=
  (Random.Source.doubleWord { key, counter := i.toUInt64 }).1.toNat

/-- The meter of the machine. -/
def meter : Meter IO where
  measure f := do
    let before ← IO.monoNanosNow
    let result ← IO.lazyPure f
    return (result, (← IO.monoNanosNow) - before)
  draws := return draw (← randomKey)
  turns workers requests := do
    let key ← randomKey
    return (List.range (2 * requests)).map fun i => draw key i % workers

/-- The machine as a host. -/
def host : Host IO where
  meter
  print line := IO.println line
  clock := IO.monoNanosNow
  today := return (← Std.Time.Timestamp.now).toSecondsSinceUnixEpoch.val.toNat
  files directory := attempt (files directory)
  read path := attempt (IO.FS.readBinFile path)
  write path content := attempt (IO.FS.writeBinFile path content)
  makeDirectories path := attempt (IO.FS.createDirAll path)

end CacheLab.Main

/-- Carries out the command on the command line. -/
def main (arguments : List String) : IO UInt32 := do
  let ending ← CacheLab.Program.run CacheLab.Main.host arguments
  ending.errorLines.forM IO.eprintln
  return ending.status.toUInt32
