import CacheLab.CommandLine
import CacheLab.Simulation
import CacheLab.Text.Bracketed
import CacheLab.Traffic

/-!
# CacheLab.Program — carrying out commands

`Program.run` reads a command line and carries out its command on a host. How
it ends is an `Ending`, which decides the status that is handed to the caller
and the line on the error stream.
-/

namespace CacheLab

/-- How a program ends. -/
inductive Ending where
  | success
  /-- The command failed for a reason that is reported. -/
  | failure (report : String)
  /-- The command line was not understood, or asked for help only. -/
  | usage (error : UsageError)
  /-- An operation left the range of words. -/
  | broken (operation : Overflow)
deriving DecidableEq, Repr

namespace Ending

/-- The status that is handed to the caller. -/
def status : Ending → Nat
  | success => 0
  | failure _ => 1
  | usage .helpRequested | usage .versionRequested => 0
  | usage _ => 2
  | broken _ => 101

/-- The lines on the error stream. -/
def errorLines : Ending → List String
  | success => []
  | failure report => [s!"Error: {report}"]
  | usage error => [error.message]
  | broken operation => [operation.message]

/-- A failure whose reason is a text. -/
def reason (text : String) : Ending := failure (Text.quoted text)

/-- The ending of a simulation that came to no outcome. -/
def ofSimulation : SimulationError → Ending
  | .overflow operation => broken operation
  | error => reason error.message

/-- The ending when no traffic could be generated. -/
def ofTraffic : TrafficError → Ending
  | .overflow operation => broken operation
  | .directory error => failure error.describe
  | error => reason error.message

end Ending

namespace Program

variable {m : Type → Type} [Monad m]

/-- Goes on with a result, or ends. -/
def orEnd {ε α : Type} (ending : ε → Ending) (result : Except ε α) : ExceptT Ending m α :=
  ExceptT.mk (pure (result.mapError ending))

/-- Goes on with the result of a program, or ends. -/
def orEndAfter {ε α : Type} (ending : ε → Ending) (program : ExceptT ε m α) :
    ExceptT Ending m α :=
  ExceptT.mk do return (← program.run).mapError ending

/-- Prints lines. -/
def printAll (host : Host m) (lines : List String) : ExceptT Ending m Unit :=
  lines.forM fun line => liftM (host.print line)

/-! ## Simulating -/

/-- What options ask to be simulated. At least one worker is at work. -/
def experiment (o : SimulateOptions) : Except ChoiceError Experiment := do
  let algorithms ← Algorithm.select (o.algorithms.getD [])
  let modes ← Mode.parse o.mode
  return { directory := o.directory, capacity := o.capacity, algorithms, modes,
           workers := max o.threads 1 }

/-- The lines in front of a simulation. -/
def heading (e : Experiment) : List String :=
  let listed (names : List String) := Text.bracketed (names.map Text.quoted)
  ["Cache Simulation", "================", s!"Input directory: {e.directory}",
    s!"Cache capacity: {e.capacity} entries",
    s!"Algorithms: {listed (e.algorithms.map (·.name))}",
    s!"Modes: {listed (e.modes.map (·.name))}"] ++
  (if e.modes.contains .concurrent then [s!"Worker threads: {e.workers}"] else []) ++ [""]

/-- Writes the scores of all runs to a file. -/
def writeTable (host : Host m) (path : String) (results : Results) : ExceptT Ending m Unit := do
  let table ← orEnd .broken results.table?
  let written ← host.write path table.toUTF8
  orEnd (fun e => .failure s!"Error(Io({OsError.describe e}))") written

/-- Carries out a simulation. -/
def simulate (host : Host m) (o : SimulateOptions) : ExceptT Ending m Unit := do
  let e ← orEnd (fun e => .reason e.message) (experiment o)
  printAll host (heading e)
  let outcome ← orEndAfter .ofSimulation (e.run host)
  printAll host ["", s!"Simulation completed in {Decimal.elapsed outcome.nanos}",
    s!"Total requests: {outcome.requests}", s!"Unique objects: {outcome.objects}"]
  match o.table with
  | none => return
  | some path =>
    writeTable host path outcome.results
    printAll host ["", s!"Results exported to: {path}"]

/-! ## Generating traffic -/

/-- The traffic that options ask for, in bytes and seconds. -/
def traffic (o : GenerateOptions) : Except Overflow Traffic := do
  let minSize ← mulWords o.minSize 1024
  let maxSize ← mulWords o.maxSize 1024
  let minTtl ← mulWords o.minTtl 3600
  let maxTtl ← mulWords o.maxTtl 3600
  return {
    profile := {
      rate := o.rate, hours := o.hours, objects := o.objects, popularTraffic := o.popularTraffic
      popularObjects := o.popularObjects, minSize, maxSize, minTtl, maxTtl }
    directory := o.directory
    seed := o.seed }

/-- Writes logs of synthetic traffic. -/
def generate (host : Host m) (o : GenerateOptions) : ExceptT Ending m Unit := do
  let t ← orEnd .broken (traffic o)
  orEndAfter .ofTraffic (t.generate host)

/-! ## The program -/

/-- Carries out a command. -/
def perform (host : Host m) : Command → ExceptT Ending m Unit
  | .simulate o => simulate host o
  | .generate o => generate host o

/-- Reads a command line, without the name of the program, and carries it out. -/
def run (host : Host m) (arguments : List String) : m Ending := do
  match Command.parse arguments with
  | .error e => return .usage e
  | .ok command =>
    match ← (perform host command).run with
    | .ok () => return .success
    | .error ending => return ending

end Program

end CacheLab
