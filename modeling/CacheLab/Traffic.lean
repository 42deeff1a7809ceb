import CacheLab.Host
import CacheLab.RequestLog
import CacheLab.Traffic.Hour

/-!
# CacheLab.Traffic — logs of synthetic traffic

`Traffic.generate` writes a log for each hour of a profile into a directory, and
prints a report. An hour that fails does not keep the others from being written;
in the end all failures are reported together.
-/

namespace CacheLab

/-- Which traffic to generate, and where to. -/
structure Traffic where
  profile : Profile
  directory : String
  /-- The number that all draws follow from; without it they differ every time. -/
  seed : Option Nat := none
  /-- The time of the first request; without it, now. -/
  start : Option Nat := none
deriving DecidableEq, Repr

/-- Why an hour could not be written. -/
inductive HourError where
  | files (hour : Nat) (error : OsError)
  /-- A number got too large. -/
  | broken
deriving DecidableEq, Repr

/-- The error in words. -/
def HourError.message : HourError → String
  | files hour error => s!"hour {hour}: {error.message}"
  | broken => "generator thread panicked"

/-- Why traffic could not be generated. -/
inductive TrafficError where
  | noObjects
  | directory (error : OsError)
  | overflow (operation : Overflow)
  | hours (first : HourError) (others : List HourError)
deriving DecidableEq, Repr

/-- The error in words. -/
def TrafficError.message : TrafficError → String
  | noObjects => "unique_objects must be greater than zero"
  | directory error => error.message
  | overflow operation => operation.message
  | hours first others => "; ".intercalate ((first :: others).map (·.message))

namespace Traffic

/-- The number of an hour with two digits at least. -/
def hourName (hour : Nat) : String := if hour < 10 then s!"0{hour}" else toString hour

/-- The name of the log of an hour. -/
def fileName (hour : Nat) : String := s!"traffic_hour_{hourName hour}.csv"

/-- The lines in front of all hours. -/
def heading (t : Traffic) (total : Nat) : List String :=
  let p := t.profile
  ["Generating traffic logs with the following parameters:",
    s!"  Requests per second: {p.rate}",
    s!"  Duration: {p.hours} hours",
    s!"  Objects: {p.objects} ({p.popular} popular, {p.regular} regular)",
    s!"  Traffic distribution: {p.popularTraffic}% from {p.popularObjects}% of objects",
    s!"  Size range: {p.minSize} - {p.maxSize} bytes",
    s!"  Output directory: {t.directory}",
    s!"Generating {total} requests in total"]

variable {m : Type → Type} [Monad m]

/-- The source of random numbers for an hour. -/
def source (host : Host m) (t : Traffic) (hour : Nat) : m Random.Source := do
  match t.seed with
  | some seed => return .ofSeed (seed + hour).toUInt64
  | none => return .ofDraws (← host.meter.draws)

/-- Writes the log of an hour. -/
def writeHour (host : Host m) (t : Traffic) (start hour : Nat) : ExceptT HourError m Unit := do
  let path := RequestLog.join t.directory (fileName hour)
  let write (content : ByteArray) : ExceptT HourError m Unit :=
    ExceptT.mk do return (← host.write path content).mapError (.files hour)
  match addWords start (hour * Profile.hourSeconds) with
  | .error _ => throw .broken
  | .ok start =>
    let source ← liftM (t.source host hour)
    write ByteArray.empty
    let h := Hour.generate t.profile hour start source
    write (RequestLog.write h.requests.toList).toUTF8
    if h.failed then throw .broken

/-- Writes the logs of hours and reports each of them; `done` requests have been
written before. The answer is the failures. -/
def writeHours (host : Host m) (t : Traffic) (start total done : Nat) :
    List Nat → m (List HourError)
  | [] => return []
  | hour :: rest => do
    match ← (t.writeHour host start hour).run with
    | .error e => return e :: (← t.writeHours host start total done rest)
    | .ok () =>
      let done := done + t.profile.hourRequests
      host.print s!"Hour {hourName hour} complete: {done}/{total} requests"
      t.writeHours host start total done rest

/-- Writes a log for each hour. -/
def generate (host : Host m) (t : Traffic) : ExceptT TrafficError m Unit := do
  if t.profile.objects = 0 then throw .noObjects
  ExceptT.mk do return (← host.makeDirectories t.directory).mapError .directory
  let start ← match t.start with
    | some start => pure start
    | none => liftM host.today
  let total ← ExceptT.mk (pure (t.profile.requests?.mapError .overflow))
  (t.heading total).forM fun line => liftM (host.print line)
  match ← liftM (t.writeHours host start total 0 (List.range t.profile.hours)) with
  | [] => host.print "Traffic log generation complete"
  | first :: others => throw (.hours first others)

end Traffic

end CacheLab
