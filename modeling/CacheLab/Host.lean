import CacheLab.Files
import CacheLab.Simulation.Replay

/-!
# CacheLab.Host — the machine that a program runs on

A `Host` collects everything that the programs of this library ask of their
surroundings: clocks, files and a place to print lines. The programs work in any
monad with a host. `Workspace.host` is a host that is a pure state: a tree of
files and the lines printed so far, with a clock that stands still.
-/

namespace CacheLab

/-- What a program asks of its surroundings. -/
structure Host (m : Type → Type) where
  meter : Meter m
  /-- Prints a line. -/
  print : String → m Unit
  /-- Nanoseconds since some moment. -/
  clock : m Nat
  /-- Seconds since the epoch. -/
  today : m Nat
  /-- The names of the regular files in a directory. -/
  files : String → m (Except OsError (List String))
  /-- The content of a file. -/
  read : String → m (Except OsError ByteArray)
  /-- Gives a file the content. -/
  write : String → ByteArray → m (Except OsError Unit)
  /-- Makes a directory and the ones above it. -/
  makeDirectories : String → m (Except OsError Unit)

/-- Files and printed lines. -/
structure Workspace where
  tree : FileTree := .empty
  output : Array String := #[]

namespace Workspace

/-- Carries out an operation that changes the tree. -/
def change (f : FileTree → Except OsError FileTree) : StateM Workspace (Except OsError Unit) :=
  fun w =>
    match f w.tree with
    | .ok tree => (.ok (), { w with tree })
    | .error e => (.error e, w)

/-- The host whose only state is a workspace. -/
def host : Host (StateM Workspace) where
  meter := .still
  print line := modify fun w => { w with output := w.output.push line }
  clock := return 0
  today := return 0
  files path := return (← get).tree.files path
  read path := return (← get).tree.read path
  write path content := change (·.write path content)
  makeDirectories path := change (·.makeDirectories path)

end Workspace

end CacheLab
