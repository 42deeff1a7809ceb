import Std.Data.HashSet
import CacheLab.Decimal.Elapsed
import CacheLab.Host
import CacheLab.RequestLog.Stream
import CacheLab.Simulation.Results

/-!
# CacheLab.Simulation — replaying logs against caches

An `Experiment` names a directory of logs, the size of the caches and the choice
of algorithms and modes. `Experiment.run` reads the logs, replays them in each
planned run and prints a report as it goes; its outcome holds the scores of all
runs.
-/

namespace CacheLab

/-- What is to be simulated. -/
structure Experiment where
  /-- The directory with the logs. -/
  directory : String
  /-- The number of entries of a cache. -/
  capacity : Nat
  algorithms : List Algorithm
  modes : List Mode
  /-- The workers that share a cache in concurrent mode. -/
  workers : Nat
deriving DecidableEq, Repr

/-- Why a simulation came to no outcome. -/
inductive SimulationError where
  | zeroCapacity
  | directory (error : OsError)
  | badEntry (error : LogError)
  | noRequests
  | notConcurrent (algorithm : Algorithm)
  | overflow (operation : Overflow)
deriving DecidableEq, Repr

/-- The error in words. -/
def SimulationError.message : SimulationError → String
  | zeroCapacity => ConfigError.zeroCapacity.message
  | directory error => s!"Failed to open log files: {(LogError.files error).message}"
  | badEntry error => s!"Failed to parse request: {error.message}"
  | noRequests => "No requests found in log files"
  | notConcurrent algorithm => s!"{algorithm.name} has no concurrent variant"
  | overflow operation => operation.message

/-! ## Traces -/

/-- The objects that requests ask for. -/
def objects (requests : List Request) : Std.HashSet String :=
  requests.foldl (fun keys r => keys.insert r.key) {}

/-- The mean number of bytes of the keys of requests, rounded down. -/
def meanKeySize (requests : List Request) : Nat :=
  requests.foldl (fun bytes r => bytes + r.key.utf8ByteSize) 0 / max requests.length 1

/-- The requests in front of the first bad entry. -/
def readable (entries : List Entry) : List Request :=
  (entries.takeWhile (·.isOk)).filterMap (·.toOption)

/-- The first bad entry. -/
def firstError? (entries : List Entry) : Option LogError :=
  entries.findSome? fun
    | .error e => some e
    | .ok _ => none

/-- The number of requests between two lines about the progress of reading. -/
def progressInterval : Nat := 10000000

/-- The lines about the progress of reading a number of requests. -/
def progress (requests : Nat) : List String :=
  (List.range (requests / progressInterval)).map fun i =>
    s!"  Scanned {(i + 1) * (progressInterval / 1000000)} million requests..."

/-- The lines about the trace. -/
def describeTrace (requests : List Request) : List String :=
  let total := requests.length
  let unique := (objects requests).size
  let mean := Float.ofNat total / Float.ofNat (max unique 1)
  ["", "Dataset statistics:", s!"  Total requests: {total}", s!"  Unique objects: {unique}",
    s!"  Avg requests per object: {Decimal.fixed 2 mean false}",
    s!"  Avg key size: {meanKeySize requests} bytes"]

namespace Experiment

variable {m : Type → Type} [Monad m]

/-- Prints lines. -/
def printAll (host : Host m) (lines : List String) : ExceptT SimulationError m Unit :=
  lines.forM fun line => liftM (host.print line)

/-- Goes on with a result, unless an operation was out of range. -/
def checked {α : Type} (result : Except Overflow α) : ExceptT SimulationError m α :=
  ExceptT.mk (pure (result.mapError .overflow))

/-- Reads all logs of the directory, and reports the progress. -/
def load (host : Host m) (e : Experiment) : ExceptT SimulationError m (List Request) := do
  let names ← match ← host.files e.directory with
    | .ok names => pure (RequestLog.select names)
    | .error error => throw (.directory error)
  let pending ← names.mapM fun name => liftM (host.read (RequestLog.join e.directory name))
  let entries := { pending : LogStream }.toList
  let requests := readable entries
  printAll host (progress requests.length)
  match firstError? entries with
  | some error => throw (.badEntry error)
  | none => return requests

/-- The empty cache for a run, if its tables can be made. In concurrent mode it
stands behind a lock. -/
def subject (e : Experiment) (fits : 0 < e.capacity) (run : Run) :
    ExceptT SimulationError m Subject :=
  match run.mode, run.algorithm.policy? with
  | .sequential, _ => do
    let _ ← checked (run.algorithm.memory? e.capacity)
    return .new run.algorithm e.capacity fits
  | .concurrent, some policy => do
    let _ ← checked (run.algorithm.memory? e.capacity)
    return .shared ⟨.new ⟨e.capacity, policy, fits⟩⟩
  | .concurrent, none => throw (.notConcurrent run.algorithm)

/-- Replays the trace in one run, and answers the tally, the number of entries
that the cache holds in the end and the time in nanoseconds. -/
def replay (host : Host m) (e : Experiment) (fits : 0 < e.capacity) (requests : List Request)
    (run : Run) : ExceptT SimulationError m (Tally × Nat × Nat) := do
  let before ← host.clock
  let subject ← e.subject fits run
  let (tally, subject) ← match run.mode with
    | .sequential => liftM (replaySequential host.meter requests subject)
    | .concurrent =>
      ExceptT.adapt .overflow (replayConcurrent host.meter e.workers requests subject)
  return (tally, subject.size, (← host.clock) - before)

/-- The shortest time, in seconds, that a rate is computed for. -/
def shortestSpan : Float := 2.220446049250313e-16

/-- The line about the time of a run. -/
def timeLine (tally : Tally) (entries nanos : Nat) : String :=
  let seconds := inSeconds nanos
  let span := if seconds < shortestSpan then shortestSpan else seconds
  let rate := Float.ofNat (tally.hits + tally.misses) / span
  s!"  Wall time: {Decimal.elapsed nanos} ({Decimal.fixed 0 rate false} req/s including I/O), " ++
    s!"final entries: {entries}"

/-- Carries out one run and records its score. -/
def perform (host : Host m) (e : Experiment) (fits : 0 < e.capacity) (requests : List Request)
    (results : Results) (run : Run) : ExceptT SimulationError m Results := do
  printAll host ["", s!"Running {run.name}..."]
  let (tally, entries, nanos) ← e.replay host fits requests run
  let latencies := tally.latencies
  let lines ← checked latencies.lines?
  printAll host (timeLine tally entries nanos :: lines)
  return ((results.recordCounts run tally.hits tally.misses tally.evictions).recordTime run
    (nanos / 1000000)).recordLatencies run latencies

/-- The reports about all runs. -/
def conclusion (e : Experiment) (results : Results) (pick : Nat) :
    Except Overflow (List String) := do
  let summary ← results.summary? pick
  let comparison ← if 1 < e.modes.length then results.comparison? else pure []
  return summary ++ comparison ++ results.referenceCheck

/-- Carries out all planned runs of a trace and prints the reports. -/
def performAll (host : Host m) (e : Experiment) (fits : 0 < e.capacity)
    (requests : List Request) : ExceptT SimulationError m Outcome := do
  let runs := Run.plan e.algorithms e.modes
  let before ← host.clock
  let results ← runs.foldlM (e.perform host fits requests) (Results.new runs)
  -- the order in which the scores are found is random, but it stays the same
  let draws ← host.meter.draws
  printAll host (← checked (e.conclusion results (draws 0)))
  let nanos := (← host.clock) - before
  checked (results.outcome? (draws 0) nanos (objects requests).size)

/-- Reads the trace, describes it and carries out the simulation. -/
def run (host : Host m) (e : Experiment) : ExceptT SimulationError m Outcome := do
  if fits : 0 < e.capacity then
    host.print "Scanning dataset for statistics..."
    let before ← host.clock
    let requests ← e.load host
    host.print s!"Scan completed in {Decimal.elapsed ((← host.clock) - before)}"
    if requests.isEmpty then throw .noRequests
    printAll host (describeTrace requests)
    e.performAll host fits requests
  else
    throw .zeroCapacity

end Experiment

end CacheLab
