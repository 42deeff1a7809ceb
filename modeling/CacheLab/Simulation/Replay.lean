import CacheLab.Cache.Shared
import CacheLab.Latency
import CacheLab.Simulation.Baseline
import CacheLab.Simulation.Request
import CacheLab.Simulation.Run

/-!
# CacheLab.Simulation.Replay — replaying a trace against a cache

A request is replayed by a lookup and, on a miss, an insertion of the object,
the way a cache in front of a slow store is used. A `Tally` counts what
happened.

* `Tally.replay` replays one request, and `replaySequential` a whole trace.
* In concurrent mode the trace is cut into batches, and the requests of a batch
  are dealt to workers in turn. A lookup and an insertion are two calls of the
  shared cache, so between them other workers may get ahead: `Worker.step` makes
  one call, and `replayBatch` lets the workers take turns in any given order.
  `replayConcurrent` goes from batch to batch, and makes a list of the workers
  for each, which fails if there are too many of them.

Everything that a replay needs from its surroundings is a `Meter`: it times
operations, draws random numbers and decides whose turn it is. The definitions
work in any monad with a meter, from pure ones to `IO`.
-/

namespace CacheLab

/-- What a replay needs from its surroundings. -/
structure Meter (m : Type → Type) where
  /-- Carries out an operation and tells how many nanoseconds it took. -/
  measure : {α : Type} → (Unit → α) → m (α × Nat)
  /-- A fresh supply of random numbers. -/
  draws : m (Nat → Nat)
  /-- The turns that the given number of workers take at a batch of the given
  number of requests. -/
  turns : Nat → Nat → m (List Nat)

/-- The meter of a world where operations take no time, all draws are zero and
the workers run one after another. -/
def Meter.still {m : Type → Type} [Monad m] : Meter m where
  measure f := pure (f (), 0)
  draws := pure fun _ => 0
  turns _ _ := pure []

/-! ## The cache under replay -/

/-- A cache that a trace is replayed against: one of a single worker, one that
several workers share, or the baseline. Values are sizes. -/
inductive Subject where
  | cache (c : Cache String Nat)
  | shared (s : Shared String Nat)
  | baseline (b : Baseline String Nat)

/-- The number of bytes that the tables of an empty subject take. Each policy has
a table of values and an index from keys to handles, or to positions under
`lfu`; `lru` and `fifo` have room for the node of each key as well. The
reference algorithm has one table of pointers. -/
def Algorithm.memory? (algorithm : Algorithm) (capacity : Nat) : Except Overflow Nat :=
  match algorithm.policy? with
  | some policy => do
    let values ← tableBytes capacity 32
    let nodes ← match policy with
      | .lru | .fifo => listBytes capacity 56
      | .lfu => pure 0
    let index ← match policy with
      | .lru | .fifo => tableBytes capacity 32
      | .lfu => tableBytes capacity 40
    return values + nodes + index
  | none => tableBytes capacity 16

namespace Subject

/-- The empty subject for an algorithm. -/
def new (algorithm : Algorithm) (capacity : Nat) (h : 0 < capacity) : Subject :=
  match algorithm.policy? with
  | some policy => cache (.new ⟨capacity, policy, h⟩)
  | none => baseline { capacity }

/-- The number of entries. -/
def size : Subject → Nat
  | cache c => c.size
  | shared s => s.size
  | baseline b => b.size

/-- Looks `key` up and answers whether it was found. -/
def get (s : Subject) (key : String) : Bool × Subject :=
  match s with
  | cache c => let (value, c) := c.get key; (value.isSome, cache c)
  | shared s => let (value, s) := s.get key; (value.isSome, shared s)
  | baseline b => let (value, b) := b.get key; (value.isSome, baseline b)

/-- Inserts a value and answers whether an entry was displaced. -/
def put (s : Subject) (key : String) (value : Nat) : Bool × Subject :=
  match s with
  | cache c => let (entry, c) := c.put key value; (entry.isSome, cache c)
  | shared s => let (entry, s) := s.put key value; (entry.isSome, shared s)
  | baseline b => let (entry, b) := b.push key value; (entry.isSome, baseline b)

/-- The entries in the order in which they would leave. -/
def leaving : Subject → List (String × Nat)
  | cache c => c.drain.1
  | shared s => s.inner.drain.1
  | baseline b => b.leaving

end Subject

/-! ## Tallies -/

/-- What happened during a replay. -/
structure Tally where
  hits : Nat := 0
  misses : Nat := 0
  evictions : Nat := 0
  gets : Sampler := .empty
  puts : Sampler := .empty
deriving DecidableEq, Repr

namespace Tally

/-- The tally of no requests. -/
def empty : Tally := {}

/-- Counts a lookup. -/
def noteLookup (t : Tally) (hit : Bool) (latency draw : Nat) : Tally :=
  { t with
    hits := if hit then t.hits + 1 else t.hits
    misses := if hit then t.misses else t.misses + 1
    gets := t.gets.record latency draw }

/-- Counts an insertion. -/
def noteInsertion (t : Tally) (displaced : Bool) (latency draw : Nat) : Tally :=
  { t with
    evictions := if displaced then t.evictions + 1 else t.evictions
    puts := t.puts.record latency draw }

/-- Adds another tally. -/
def merge (t other : Tally) (draws : Nat → Nat) : Tally where
  hits := t.hits + other.hits
  misses := t.misses + other.misses
  evictions := t.evictions + other.evictions
  gets := t.gets.merge other.gets draws
  puts := t.puts.merge other.puts draws

/-- The latencies of the replay. -/
def latencies (t : Tally) : Latencies := ⟨t.gets.summary, t.puts.summary⟩

variable {m : Type → Type} [Monad m]

/-- Looks the object of a request up, and answers whether it was found. -/
def lookUp (meter : Meter m) (request : Request) (t : Tally) (s : Subject) :
    m (Bool × Tally × Subject) := do
  let ((hit, s), latency) ← meter.measure fun _ => s.get request.key
  let draws ← meter.draws
  return (hit, t.noteLookup hit latency (draws 0), s)

/-- Inserts the object of a request. -/
def fill (meter : Meter m) (request : Request) (t : Tally) (s : Subject) :
    m (Tally × Subject) := do
  let ((displaced, s), latency) ← meter.measure fun _ => s.put request.key request.stored
  let draws ← meter.draws
  return (t.noteInsertion displaced latency (draws 0), s)

/-- Replays one request: a lookup, then on a miss an insertion. -/
def replay (meter : Meter m) (request : Request) (t : Tally) (s : Subject) :
    m (Tally × Subject) := do
  let (hit, t, s) ← t.lookUp meter request s
  if hit then return (t, s) else t.fill meter request s

/-- Replays requests one after another. -/
def replayAll (meter : Meter m) (requests : List Request) (t : Tally) (s : Subject) :
    m (Tally × Subject) :=
  requests.foldlM (fun (t, s) request => t.replay meter request s) (t, s)

end Tally

/-- Replays a trace from one worker. -/
def replaySequential {m : Type → Type} [Monad m] (meter : Meter m) (requests : List Request)
    (s : Subject) : m (Tally × Subject) :=
  Tally.empty.replayAll meter requests s

/-! ## Workers -/

/-- A worker in the middle of its requests. -/
structure Worker where
  /-- A request whose lookup missed and whose insertion is still to come. -/
  pending : Option Request := none
  /-- The requests that are not begun yet. -/
  queue : List Request
  tally : Tally := .empty

namespace Worker

/-- The number of bytes that a worker takes while it is at work. -/
def bytes : Nat := 24

variable {m : Type → Type} [Monad m]

/-- Makes the next call of the worker, if it is not finished. -/
def step (meter : Meter m) (w : Worker) (s : Subject) : m (Worker × Subject) :=
  match w.pending, w.queue with
  | some request, _ => do
    let (tally, s) ← w.tally.fill meter request s
    return ({ w with pending := none, tally }, s)
  | none, request :: queue => do
    let (hit, tally, s) ← w.tally.lookUp meter request s
    return ({ pending := if hit then none else some request, queue, tally }, s)
  | none, [] => return (w, s)

/-- Makes all calls that are left. -/
def finish (meter : Meter m) (w : Worker) (s : Subject) : m (Tally × Subject) := do
  let (tally, s) ← match w.pending with
    | some request => w.tally.fill meter request s
    | none => pure (w.tally, s)
  tally.replayAll meter w.queue s

end Worker

section Concurrent

variable {m : Type → Type} [Monad m]

/-- Lets each worker in turn make one call; a turn of no worker is skipped. -/
def takeTurns (meter : Meter m) : List Nat → List Worker → Subject → m (List Worker × Subject)
  | [], workers, s => return (workers, s)
  | i :: turns, workers, s =>
    match workers[i]? with
    | none => takeTurns meter turns workers s
    | some w => do
      let (w, s) ← w.step meter s
      takeTurns meter turns (workers.set i w) s

/-- Lets the workers finish one after another. -/
def finishAll (meter : Meter m) : List Worker → Subject → m (List Tally × Subject)
  | [], s => return ([], s)
  | w :: workers, s => do
    let (tally, s) ← w.finish meter s
    let (tallies, s) ← finishAll meter workers s
    return (tally :: tallies, s)

/-- A list cut into pieces of `n + 1` items. -/
def batches {α : Type} (n : Nat) : List α → List (List α)
  | [] => []
  | a :: rest => (a :: rest.take n) :: batches n (rest.drop n)
termination_by l => l.length
decreasing_by simp only [List.length_drop, List.length_cons]; omega

/-- Puts each item of a row in front of the list at its place. -/
def putRow {α : Type} : List α → List (List α) → List (List α)
  | a :: row, l :: lists => (a :: l) :: putRow row lists
  | _, lists => lists

/-- Deals requests to workers in turn: request `i` goes to worker `i % workers`. -/
def deal {α : Type} (workers : Nat) (batch : List α) : List (List α) :=
  (batches (workers - 1) batch).foldr putRow (List.replicate workers [])

/-- Replays one batch from several workers, and answers the tally of each. -/
def replayBatch (meter : Meter m) (workers : Nat) (batch : List Request) (s : Subject) :
    m (List Tally × Subject) := do
  let turns ← meter.turns workers batch.length
  let (unfinished, s) ← takeTurns meter turns ((deal workers batch).map ({ queue := · })) s
  finishAll meter unfinished s

/-- Adds the tallies of several workers to a tally. -/
def mergeAll (meter : Meter m) (t : Tally) (tallies : List Tally) : m Tally :=
  tallies.foldlM (fun t other => return t.merge other (← meter.draws)) t

/-- The number of requests in a batch. -/
def batchSize : Nat := 65536

/-- Makes the list of the workers of a batch, if there can be so long a list, and
answers its number of bytes. -/
def enlist (workers : Nat) : ExceptT Overflow m Nat :=
  ExceptT.mk (pure (listBytes workers Worker.bytes))

/-- Replays one more batch, and adds what its workers have counted. -/
def addBatch (meter : Meter m) (workers : Nat) (state : Tally × Subject) (batch : List Request) :
    m (Tally × Subject) := do
  let (tallies, s) ← replayBatch meter workers batch state.2
  return (← mergeAll meter state.1 tallies, s)

/-- Replays a trace from several workers that share one cache. No workers count as one. -/
def replayConcurrent (meter : Meter m) (workers : Nat) (requests : List Request) (s : Subject) :
    ExceptT Overflow m (Tally × Subject) :=
  (batches (batchSize - 1) requests).foldlM
    (fun state batch => do
      let _ ← enlist (max workers 1)
      liftM (addBatch meter (max workers 1) state batch))
    (Tally.empty, s)

end Concurrent

end CacheLab
