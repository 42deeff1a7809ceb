import Std.Data.TreeMap
import CacheLab.Csv.Writer
import CacheLab.Decimal.Fixed
import CacheLab.Decimal.Shortest
import CacheLab.Latency
import CacheLab.Simulation.Run
import CacheLab.Text.Padded

/-!
# CacheLab.Simulation.Results — the results of a simulation

`Results` holds a `Score` for each planned run, in the order of the runs. What
is recorded for a run that was not planned is dropped, and what is recorded
later replaces what was recorded before.

From the results come four reports: the summary of all runs, the comparison of
the two modes, the check of the policy `lru` against the reference algorithm,
and the table of all scores as comma-separated text.
-/

namespace CacheLab

/-- What one run achieved. -/
structure Score where
  hits : Nat := 0
  misses : Nat := 0
  /-- Entries evicted to make room for a miss. -/
  evictions : Nat := 0
  /-- The wall-clock time of the run in milliseconds. -/
  millis : Nat := 0
  latencies : Latencies := {}
deriving DecidableEq, Repr

namespace Score

/-- The score of a run that has not happened. -/
def empty : Score := {}

/-- The number of requests. -/
def requests? (s : Score) : Except Overflow Nat := addWords s.hits s.misses

/-- The hits in percent of the requests. -/
def hitRate? (s : Score) : Except Overflow Float := do
  let requests ← s.requests?
  if requests = 0 then return 0.0
  return Float.ofNat s.hits / Float.ofNat requests * 100.0

end Score

/-- The scores of the planned runs. -/
abbrev Results := Std.TreeMap Run Score

namespace Results

/-- An empty score for each of the runs. -/
def new (runs : List Run) : Results := .ofList (runs.map (·, Score.empty))

/-- Changes the score of a planned run. -/
def update (r : Results) (run : Run) (f : Score → Score) : Results := r.modify run f

/-- Records the counts of a run. -/
def recordCounts (r : Results) (run : Run) (hits misses evictions : Nat) : Results :=
  r.update run fun s => { s with hits, misses, evictions }

/-- Records the time of a run. -/
def recordTime (r : Results) (run : Run) (millis : Nat) : Results :=
  r.update run fun s => { s with millis }

/-- Records the latencies of a run. -/
def recordLatencies (r : Results) (run : Run) (latencies : Latencies) : Results :=
  r.update run fun s => { s with latencies }

/-- The number of requests of the trace, which every run has replayed: read off
one of the runs. Which one is up to chance, and `pick` stands for it. -/
def requests? (r : Results) (pick : Nat) : Except Overflow Nat :=
  r.toList[pick % r.size]?.elim (.ok 0) fun (_, score) => score.requests?

/-! ## Summary -/

/-- The headings of the summary. -/
def summaryHeadings : String :=
  Text.padRight 7 "Algo" ++ " " ++ Text.padRight 10 "Mode" ++ " " ++
    Text.padLeft 8 "HitRate" ++ " " ++
    Text.padLeft 10 "Evictions" ++ " " ++ Text.padLeft 12 "TotalOps" ++ " " ++
    Text.padLeft 10 "Ops/sec" ++ " " ++ Text.padLeft 10 "GetAvg" ++ " " ++
    Text.padLeft 10 "PutAvg" ++ " " ++ Text.padLeft 10 "GetP99"

/-- A number rounded to a whole one. -/
def whole (x : Float) : String := Decimal.fixed 0 x false

/-- A percentage with two places. -/
def percent (x : Float) : String := Decimal.fixed 2 x false

/-- The line of the summary about one run. -/
def summaryLine (run : Run) (s : Score) : Except Overflow String := do
  let hitRate ← s.hitRate?
  let count ← s.latencies.count?
  let rate ← s.latencies.rate?
  return Text.padRight 7 run.algorithm.name ++ " " ++ Text.padRight 10 run.mode.name ++ " " ++
    Text.padLeft 7 (percent hitRate) ++ "% " ++ Text.padLeft 10 (toString s.evictions) ++ " " ++
    Text.padLeft 12 (toString count) ++ " " ++ Text.padLeft 10 (whole rate) ++ " " ++
    Text.padLeft 8 (whole s.latencies.gets.mean) ++ "ns " ++
    Text.padLeft 8 (whole s.latencies.puts.mean) ++ "ns " ++
    Text.padLeft 8 (toString s.latencies.gets.p99) ++ "ns"

/-- The summary of all runs. -/
def summary? (r : Results) (pick : Nat) : Except Overflow (List String) := do
  let requests ← r.requests? pick
  let lines ← r.toList.mapM fun (run, score) => summaryLine run score
  return ["", "Cache Simulation Summary", "========================",
    s!"Total requests: {requests}", "", "Results by Algorithm and Mode:", summaryHeadings,
    String.ofList (List.replicate 97 '-')] ++ lines

/-! ## Comparison of the modes -/

/-- Two hit rates that differ by less than this are called equal. -/
def tolerance : Float := 0.1

/-- The line of the comparison about one algorithm. -/
def comparisonLine (r : Results) (algorithm : Algorithm) : Except Overflow String := do
  let cells (name first second delta note : String) : String :=
    "│ " ++ Text.padRight 8 name ++ " │ " ++ Text.padLeft 10 first ++ " │ " ++
      Text.padLeft 10 second ++ " │ " ++ Text.padLeft 8 delta ++ " │ " ++ Text.padRight 15 note ++
      " │"
  match r[Run.mk algorithm .sequential]?, r[Run.mk algorithm .concurrent]? with
  | some sequential, some concurrent =>
    let after ← concurrent.hitRate?
    let before ← sequential.hitRate?
    let delta := after - before
    let note := if delta.abs < tolerance then "~equal" else "interleaving"
    return cells algorithm.name (percent before ++ "%") (percent after ++ "%")
      (Decimal.fixed 2 delta true ++ "%") note
  | _, _ => return cells algorithm.name "N/A" "N/A" "N/A" "single mode"

/-- The hit rates of the two modes side by side. -/
def comparison? (r : Results) : Except Overflow (List String) := do
  let lines ← (r.keys.map (·.algorithm)).eraseDups.mapM r.comparisonLine
  return ["",
    "┌─────────────────────────────────────────────────────────────────┐",
    "│              Hit-Rate Comparison: Sequential vs Concurrent      │",
    "├──────────┬────────────┬────────────┬──────────┬─────────────────┤",
    "│ Algorithm│ Sequential │ Concurrent │  Delta   │ Notes           │",
    "├──────────┼────────────┼────────────┼──────────┼─────────────────┤"] ++ lines ++ [
    "└──────────┴────────────┴────────────┴──────────┴─────────────────┘",
    "",
    "Note: the concurrent cache makes the same eviction decisions under one",
    "lock; differences come only from how worker threads interleave requests."]

/-! ## Check against the reference -/

/-- The hits under `lru` and of the reference algorithm, if both ran in sequence. -/
def referenceHits? (r : Results) : Option (Nat × Nat) := do
  let ours ← r[Run.mk .lru .sequential]?
  let reference ← r[Run.mk .referenceLru .sequential]?
  return (ours.hits, reference.hits)

/-- Whether `lru` agreed with the reference algorithm. -/
def referenceCheck (r : Results) : List String :=
  match r.referenceHits? with
  | none => []
  | some (ours, reference) =>
    if ours = reference then
      ["", s!"Reference check: LRU matches the lru crate ({ours} hits)"]
    else
      ["", s!"Reference check: MISMATCH, LRU had {ours} hits, the lru crate {reference}"]

/-! ## Table of scores -/

/-- How numbers with a fraction are set in the table: with an exponent below
`1e-5` and from `1e16` on. -/
def layout : Decimal.Layout := ⟨-5, 16⟩

/-- The headings of the table. -/
def columns : List String :=
  ["algorithm", "mode", "hits", "misses", "hit_rate", "evictions", "simulation_time_ms",
    "total_ops", "ops_per_sec", "avg_latency_ns", "get_ops", "get_avg_ns", "get_min_ns", "get_max_ns",
    "get_p50_ns", "get_p99_ns", "put_ops", "put_avg_ns", "put_min_ns", "put_max_ns", "put_p50_ns",
    "put_p99_ns"]

/-- The cells of the table about one kind of operation. -/
def operationCells (s : Summary) : List String :=
  [toString s.count, Decimal.shortest layout s.mean, toString s.least, toString s.greatest,
    toString s.median, toString s.p99]

/-- The row of the table about one run. -/
def tableRow (run : Run) (s : Score) : Except Overflow (List String) := do
  let hitRate ← s.hitRate?
  let count ← s.latencies.count?
  let rate ← s.latencies.rate?
  let mean ← s.latencies.mean?
  return [run.algorithm.name, run.mode.name, toString s.hits, toString s.misses,
    Decimal.shortest layout hitRate, toString s.evictions, toString s.millis, toString count,
    Decimal.shortest layout rate, Decimal.shortest layout mean] ++
    operationCells s.latencies.gets ++ operationCells s.latencies.puts

/-- All scores as comma-separated text, a row for each run in order. -/
def table? (r : Results) : Except Overflow String := do
  return Csv.table columns (← r.toList.mapM fun (run, score) => tableRow run score)

end Results

/-- What a simulation gives back. -/
structure Outcome where
  results : Results
  requests : Nat
  /-- The number of distinct objects in the trace. -/
  objects : Nat
  /-- The time of all runs in nanoseconds. -/
  nanos : Nat

/-- The outcome of a simulation with the given results. -/
def Results.outcome? (r : Results) (pick nanos objects : Nat) : Except Overflow Outcome := do
  return { results := r, requests := ← r.requests? pick, objects, nanos }

end CacheLab
