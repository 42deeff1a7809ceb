import CacheLab.CommandLine.Grammar
import CacheLab.Word

/-!
# CacheLab.CommandLine — the two commands

`simulate` replays logs against caches, and `generate` writes logs of synthetic
traffic. `Command.parse` reads a command and its options. In front of a command,
only help and the version can be asked for.
-/

namespace CacheLab

/-- The options of `simulate`. -/
structure SimulateOptions where
  /-- The directory with the logs. -/
  directory : String
  capacity : Nat := 10000
  /-- The names of algorithms; all algorithms if none are given. -/
  algorithms : Option (List String) := none
  mode : String := "both"
  threads : Nat := 4
  /-- The file that the scores are written to. -/
  table : Option String := none
deriving DecidableEq, Repr

/-- The options of `generate`. -/
structure GenerateOptions where
  rate : Nat := 100
  hours : Nat := 24
  objects : Nat := 10000
  popularTraffic : Nat := 80
  popularObjects : Nat := 20
  /-- The least size in kilobytes. -/
  minSize : Nat := 1
  /-- The greatest size in kilobytes. -/
  maxSize : Nat := 1024
  /-- The least time to live in hours. -/
  minTtl : Nat := 1
  /-- The greatest time to live in hours. -/
  maxTtl : Nat := 24
  seed : Option Nat := none
  /-- The directory that the logs are written to. -/
  directory : String := "traffic_logs"
  /-- The kilobytes that are written at a time. -/
  buffer : Nat := 8192
deriving DecidableEq, Repr

/-- A command with its options. -/
inductive Command where
  | simulate (options : SimulateOptions)
  | generate (options : GenerateOptions)
deriving DecidableEq, Repr

namespace Command

open CommandLine

/-- The options that `simulate` takes. -/
def simulateFlags : List Flag := [
  { long := "input-dir", short := some 'i', kind := .path },
  { long := "capacity", short := some 'c', kind := .number wordCount false },
  { long := "algorithms", short := some 'a', kind := .text, many := true },
  { long := "mode", kind := .text },
  { long := "threads", kind := .number wordCount false },
  { long := "output-csv", kind := .path }]

/-- The options that `generate` takes. -/
def generateFlags : List Flag := [
  { long := "rps", kind := .number halfWordCount true },
  { long := "duration", kind := .number halfWordCount true },
  { long := "objects", kind := .number halfWordCount true },
  { long := "popular-traffic", kind := .number byteCount true },
  { long := "popular-objects", kind := .number byteCount true },
  { long := "min-size", kind := .number wordCount false },
  { long := "max-size", kind := .number wordCount false },
  { long := "min-ttl", kind := .number wordCount false },
  { long := "max-ttl", kind := .number wordCount false },
  { long := "seed", kind := .number wordCount false },
  { long := "output", short := some 'o', kind := .path },
  { long := "buffer-size", kind := .number halfWordCount true }]

/-- Reads the options of `simulate`. -/
def parseSimulate (arguments : List String) : Except UsageError SimulateOptions := do
  let o ← Options.readAll simulateFlags {} arguments
  match o.text? "input-dir" with
  | none => throw .missingOption
  | some directory =>
    let standard : SimulateOptions := { directory }
    return { standard with
      capacity := o.number "capacity" standard.capacity
      algorithms := o.texts? "algorithms"
      mode := (o.text? "mode").getD standard.mode
      threads := o.number "threads" standard.threads
      table := o.text? "output-csv" }

/-- Reads the options of `generate`. -/
def parseGenerate (arguments : List String) : Except UsageError GenerateOptions := do
  let o ← Options.readAll generateFlags {} arguments
  let standard : GenerateOptions := {}
  return {
    rate := o.number "rps" standard.rate
    hours := o.number "duration" standard.hours
    objects := o.number "objects" standard.objects
    popularTraffic := o.number "popular-traffic" standard.popularTraffic
    popularObjects := o.number "popular-objects" standard.popularObjects
    minSize := o.number "min-size" standard.minSize
    maxSize := o.number "max-size" standard.maxSize
    minTtl := o.number "min-ttl" standard.minTtl
    maxTtl := o.number "max-ttl" standard.maxTtl
    seed := o.number? "seed"
    directory := (o.text? "output").getD standard.directory
    buffer := o.number "buffer-size" standard.buffer }

/-- The names of the commands. -/
def names : List String := ["simulate", "generate", "help"]

/-- What asking for help about the given commands leads to: there is help about
each command alone, and about all of them. -/
def helpError : List String → UsageError
  | [] => .helpRequested
  | [name] => if names.contains name then .helpRequested else .unknownCommand
  | _ => .unknownCommand

/-- What an argument in front of a command leads to. -/
def leadingError (argument : String) : UsageError :=
  match Token.read argument with
  | .long "help" none | .short 'h' _ => .helpRequested
  | .long "version" none | .short 'V' _ => .versionRequested
  | .long "help" _ | .long "version" _ => .unexpectedValue
  | .long _ _ | .short _ _ => .unknownArgument
  | .word | .escape => .unknownCommand

/-- What an argument behind two dashes leads to, where a command should be. -/
def escapedError (argument : String) : UsageError :=
  if names.contains argument then .unknownArgument else .unknownCommand

/-- Reads a command line without the name of the program. -/
def parse : List String → Except UsageError Command
  | [] => .error .nothingGiven
  | "simulate" :: rest => return simulate (← parseSimulate rest)
  | "generate" :: rest => return generate (← parseGenerate rest)
  | "help" :: rest => .error (helpError rest)
  | "--" :: [] => .error .nothingGiven
  | "--" :: argument :: _ => .error (escapedError argument)
  | argument :: _ => .error (leadingError argument)

end Command

end CacheLab
