import CacheLab.Policy
import CacheLab.Text.Blank
import CacheLab.Text.Lowercase

/-!
# CacheLab.Simulation.Run — what a simulation runs

A run replays a trace against one *algorithm* in one *mode*. This module reads
the names of algorithms and modes, and plans the runs for a choice of both: all
pairs, except that the reference algorithm has no concurrent form.
-/

namespace CacheLab

/-- A cache that a trace can be replayed against. -/
inductive Algorithm where
  | lru
  | fifo
  | lfu
  /-- A plain bounded list by recency, which the results under `lru` are
  checked against. -/
  | referenceLru
deriving DecidableEq, Repr

/-- How a trace is replayed. -/
inductive Mode where
  /-- One worker alone. -/
  | sequential
  /-- Several workers that share one cache. -/
  | concurrent
deriving DecidableEq, Repr

/-- A name that is neither an algorithm nor a mode. -/
inductive ChoiceError where
  | unknownAlgorithm (name : String)
  | unknownMode (name : String)
deriving DecidableEq, Repr

/-- The error in words. -/
def ChoiceError.message : ChoiceError → String
  | unknownAlgorithm name => s!"unknown algorithm '{name}'"
  | unknownMode name => s!"unknown mode '{name}'"

namespace Algorithm

/-- Every algorithm, in a fixed order. -/
def all : List Algorithm := [lru, fifo, lfu, referenceLru]

/-- The short name in reports. -/
def name : Algorithm → String
  | lru => "LRU"
  | fifo => "FIFO"
  | lfu => "LFU"
  | referenceLru => "RefLRU"

/-- The name of the algorithm as a choice among the four. -/
def choice : Algorithm → String
  | lru => "Lru"
  | fifo => "Fifo"
  | lfu => "Lfu"
  | referenceLru => "ReferenceLru"

/-- The place of the algorithm in reports. -/
def rank : Algorithm → Nat
  | lru => 0
  | fifo => 1
  | lfu => 2
  | referenceLru => 3

/-- The policy behind the algorithm, if it is a cache of this library. -/
def policy? : Algorithm → Option Policy
  | lru => some .lru
  | fifo => some .fifo
  | lfu => some .lfu
  | referenceLru => none

/-- Reads a name; case and white space around it do not matter. -/
def parse (text : String) : Except ChoiceError Algorithm :=
  match Text.lowercase (Text.trim text) with
  | "lru" => .ok lru
  | "fifo" => .ok fifo
  | "lfu" => .ok lfu
  | "reference-lru" | "ref-lru" | "reflru" => .ok referenceLru
  | other => .error (.unknownAlgorithm other)

/-- The algorithms that a list of names selects, in the order of first mention;
no names select every algorithm. -/
def select (names : List String) : Except ChoiceError (List Algorithm) := do
  match (← names.mapM parse).eraseDups with
  | [] => return all
  | selected => return selected

end Algorithm

namespace Mode

/-- The name in reports. -/
def name : Mode → String
  | sequential => "Sequential"
  | concurrent => "Concurrent"

/-- The place of the mode in reports. -/
def rank : Mode → Nat
  | sequential => 0
  | concurrent => 1

/-- The modes that a name selects; case and white space around it do not matter. -/
def parse (text : String) : Except ChoiceError (List Mode) :=
  match Text.lowercase (Text.trim text) with
  | "sequential" | "seq" => .ok [sequential]
  | "concurrent" | "conc" => .ok [concurrent]
  | "both" | "all" => .ok [sequential, concurrent]
  | other => .error (.unknownMode other)

end Mode

/-- An algorithm in a mode. -/
structure Run where
  algorithm : Algorithm
  mode : Mode
deriving DecidableEq, Repr

namespace Run

/-- The name in reports. -/
def name (r : Run) : String := s!"{r.algorithm.name}-{r.mode.name}"

/-- Runs are ordered by algorithm, then by mode. -/
instance : Ord Run :=
  ⟨compareLex (compareOn (·.algorithm.rank)) (compareOn (·.mode.rank))⟩

/-- Whether there is such a run: the reference algorithm runs in sequence only. -/
def isPossible (r : Run) : Bool := r ≠ ⟨.referenceLru, .concurrent⟩

/-- The runs for a choice of algorithms and modes, algorithm by algorithm. -/
def plan (algorithms : List Algorithm) (modes : List Mode) : List Run :=
  algorithms.flatMap fun algorithm => (modes.map (Run.mk algorithm)).filter isPossible

/-- The runs in order. -/
def sort (runs : List Run) : List Run := runs.mergeSort fun a b => (compare a b).isLE

end Run

end CacheLab
