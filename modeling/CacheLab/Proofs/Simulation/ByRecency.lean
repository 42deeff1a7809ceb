import CacheLab.Proofs.Cache.RecencyList
import CacheLab.Proofs.Simulation.Replay

/-!
# CacheLab.Proofs.Simulation.ByRecency — replays that evict by recency

Two algorithms evict the least recently used entry: the cache under `lru` and the
reference algorithm. Each of them is a `RecencyList`, and a replay against either
one is a fold over that list:

* `Subject.Holds algorithm capacity s l` says that the subject `s` of the algorithm
  is the list `l`; a lookup and an insertion keep it (`Holds.get`, `Holds.put`), and
  the size and the order of leaving are those of the list.
* `RecencyList.replay` is the fold, and `replaySequential_byRecency` says that a
  replay of either algorithm is this fold.
-/

namespace CacheLab

open Std.Do

set_option mvcgen.warning false

/-- Whether the algorithm evicts the least recently used entry. -/
def Algorithm.isByRecency : Algorithm → Bool
  | .lru | .referenceLru => true
  | .fifo | .lfu => false

namespace Baseline

variable {κ ν : Type} [DecidableEq κ] {l : RecencyList κ ν} {capacity : Nat}

theorem get_eq (capacity : Nat) (l : RecencyList κ ν) (key : κ) :
    (Baseline.mk capacity l).get key = (l.lookup key, ⟨capacity, (l.modify key id).2⟩) := by
  unfold get
  cases hlookup : l.lookup key with
  | none => rw [RecencyList.modify_of_none hlookup]
  | some value =>
    rw [RecencyList.modify_of_some hlookup]
    rfl

/-- A list that is not too long is full when it is not shorter than its capacity. -/
theorem push_eq (hl : l.Fits capacity) (key : κ) (value : ν) :
    (Baseline.mk capacity l).push key value =
      ((l.put capacity key value).1, ⟨capacity, (l.put capacity key value).2⟩) := by
  unfold push
  cases hlookup : l.lookup key with
  | some old =>
    rw [RecencyList.put_of_some hlookup]
    rfl
  | none =>
    rw [RecencyList.put_of_none hlookup]
    by_cases hfull : l.length = capacity
    · have hge : ¬ (Baseline.mk capacity l).size < capacity :=
        Nat.not_lt.mpr (Nat.le_of_eq hfull.symm)
      rw [if_neg hge, if_pos hfull, if_pos hfull]
    · have hlt : (Baseline.mk capacity l).size < capacity := Nat.lt_of_le_of_ne hl.length_le hfull
      rw [if_pos hlt, if_neg hfull, if_neg hfull]

end Baseline

/-! ## A subject as a list -/

/-- The entries of the subject of an algorithm are the pairs of a list, which fits
its capacity. -/
inductive Subject.Holds : Algorithm → Nat → Subject → RecencyList String Nat → Prop where
  | cache {c : Cache String Nat} {config : Config} {l : RecencyList String Nat} :
    c.Holds config l → Holds .lru config.capacity (.cache c) l
  | baseline {l : RecencyList String Nat} {capacity : Nat} :
    l.Fits capacity → Holds .referenceLru capacity (.baseline ⟨capacity, l⟩) l

namespace Subject.Holds

variable {algorithm : Algorithm} {s : Subject} {l : RecencyList String Nat} {capacity : Nat}

theorem new (halgorithm : algorithm.isByRecency) (hpos : 0 < capacity) :
    Holds algorithm capacity (.new algorithm capacity hpos) [] := by
  cases algorithm with
  | lru => exact .cache (Cache.Holds.new ⟨capacity, .lru, hpos⟩ rfl)
  | referenceLru => exact .baseline ⟨List.nodup_nil, Nat.zero_le capacity⟩
  | fifo => cases halgorithm
  | lfu => cases halgorithm

/-- A cache under `lru` lists the keys in the order of the list. -/
theorem keys_eq (hs : Holds .lru capacity s l) :
    ∃ c, s = .cache c ∧ c.tracker.keys = l.map (·.1) := by
  cases hs with
  | cache hc => exact ⟨_, rfl, hc.keys_eq⟩

theorem size_eq (hs : Holds algorithm capacity s l) : s.size = l.length := by
  cases hs with
  | cache hc => exact hc.size_eq
  | baseline => rfl

theorem leaving_eq (hs : Holds algorithm capacity s l) : s.leaving = l.reverse := by
  cases hs with
  | cache hc => exact hc.drain_eq
  | baseline => rfl

theorem get (hs : Holds algorithm capacity s l) (key : String) :
    (s.get key).1 = (l.lookup key).isSome ∧
      Holds algorithm capacity (s.get key).2 (l.modify key id).2 := by
  cases hs with
  | cache hc =>
    rcases hc.get key with ⟨hvalue, hrest⟩
    exact ⟨congrArg Option.isSome hvalue, .cache hrest⟩
  | baseline hl =>
    dsimp only [Subject.get]
    rw [Baseline.get_eq]
    exact ⟨rfl, .baseline (hl.modify key id)⟩

theorem put (hs : Holds algorithm capacity s l) (hpos : 0 < capacity) (key : String) (value : Nat) :
    (s.put key value).1 = (l.put capacity key value).1.isSome ∧
      Holds algorithm capacity (s.put key value).2 (l.put capacity key value).2 := by
  cases hs with
  | cache hc =>
    rcases hc.put key value with ⟨hentry, hrest⟩
    exact ⟨congrArg Option.isSome hentry, .cache hrest⟩
  | baseline hl =>
    dsimp only [Subject.put]
    rw [Baseline.push_eq hl]
    exact ⟨rfl, .baseline (hl.put hpos key value)⟩

end Subject.Holds

/-! ## The fold over a list -/

namespace RecencyList

/-- Replays one request against a list. -/
def serve (capacity : Nat) (state : Counts × RecencyList String Nat) (request : Request) :
    Counts × RecencyList String Nat :=
  let (value, l) := state.2.modify request.key id
  let n := state.1.noteLookup value.isSome
  if value.isSome then
    (n, l)
  else
    let (displaced, l) := l.put capacity request.key request.stored
    (n.noteInsertion displaced.isSome, l)

/-- Replays a trace against an empty list. -/
def replay (capacity : Nat) (requests : List Request) : Counts × RecencyList String Nat :=
  requests.foldl (serve capacity) ({}, [])

variable {l : RecencyList String Nat} {capacity : Nat} {n : Counts} {request : Request}

theorem serve_of_some {value : Nat} (hsome : l.lookup request.key = some value) :
    serve capacity (n, l) request =
      (n.noteLookup true, (request.key, value) :: l.without request.key) := by
  rw [serve, modify_of_some hsome]
  rfl

theorem serve_of_none (hnone : l.lookup request.key = none) :
    serve capacity (n, l) request =
      ((n.noteLookup false).noteInsertion (l.put capacity request.key request.stored).1.isSome,
        (l.put capacity request.key request.stored).2) := by
  rw [serve, modify_of_none hnone]
  rfl

/-- A request is a hit if its key is listed, and a miss otherwise. -/
theorem hits_misses_serve (capacity : Nat) (state : Counts × RecencyList String Nat)
    (request : Request) :
    ((serve capacity state request).1.hits, (serve capacity state request).1.misses) =
      if (state.2.lookup request.key).isSome then (state.1.hits + 1, state.1.misses)
      else (state.1.hits, state.1.misses + 1) := by
  rcases state with ⟨n, l⟩
  cases hlookup : l.lookup request.key with
  | some value =>
    rw [serve_of_some hlookup]
    rfl
  | none =>
    rw [serve_of_none hlookup]
    rfl

theorem replay_append (capacity : Nat) (requests : List Request) (request : Request) :
    replay capacity (requests ++ [request]) =
      serve capacity (replay capacity requests) request := by
  rw [replay, List.foldl_append]
  rfl

end RecencyList

/-- The same counts, and a subject that is the list. -/
structure Subject.Follows (algorithm : Algorithm) (capacity : Nat) (state : Counts × Subject)
    (plain : Counts × RecencyList String Nat) : Prop where
  counts_eq : state.1 = plain.1
  holds : Holds algorithm capacity state.2 plain.2

namespace Subject.Follows

variable {algorithm : Algorithm} {capacity : Nat} {state : Counts × Subject}
  {plain : Counts × RecencyList String Nat}

/-- One request against the subject is one request against the list. -/
theorem serve (hs : Follows algorithm capacity state plain) (hpos : 0 < capacity)
    (request : Request) :
    Follows algorithm capacity (Subject.serve state request)
      (RecencyList.serve capacity plain request) := by
  rcases state with ⟨n, s⟩
  rcases plain with ⟨n', l⟩
  rcases hs with ⟨rfl, hs⟩
  rcases hs.get request.key with ⟨hhit, hs'⟩
  rcases hget : s.get request.key with ⟨hit, s'⟩
  rw [hget] at hhit hs'
  dsimp only at hhit hs'
  cases hlookup : l.lookup request.key with
  | some value =>
    rw [hhit, hlookup] at hget
    rw [RecencyList.modify_of_some hlookup] at hs'
    rw [serve_of_hit hget, RecencyList.serve_of_some hlookup]
    exact ⟨rfl, hs'⟩
  | none =>
    rw [hhit, hlookup] at hget
    rw [RecencyList.modify_of_none hlookup] at hs'
    dsimp only at hs'
    rcases hs'.put hpos request.key request.stored with ⟨hdisplaced, hs''⟩
    rcases hput : s'.put request.key request.stored with ⟨displaced, s''⟩
    rw [hput] at hdisplaced hs''
    rw [serve_of_miss hget hput, RecencyList.serve_of_none hlookup, ← hdisplaced]
    exact ⟨rfl, hs''⟩

/-- A trace against the subject is the trace against the list. -/
theorem serveAll (hs : Follows algorithm capacity state plain) (hpos : 0 < capacity)
    (requests : List Request) :
    Follows algorithm capacity (requests.foldl Subject.serve state)
      (requests.foldl (RecencyList.serve capacity) plain) := by
  induction requests generalizing state plain with
  | nil => exact hs
  | cons request requests ih => exact ih (hs.serve hpos request)

/-- A trace against an empty subject is the trace against an empty list. -/
theorem new (halgorithm : algorithm.isByRecency) (hpos : 0 < capacity) (requests : List Request) :
    Follows algorithm capacity
      (requests.foldl Subject.serve ({}, .new algorithm capacity hpos))
      (RecencyList.replay capacity requests) := by
  have hempty : Follows algorithm capacity ({}, .new algorithm capacity hpos) ({}, []) :=
    ⟨rfl, .new halgorithm hpos⟩
  exact hempty.serveAll hpos requests

variable {m : Type → Type} {ps : PostShape} [Monad m] [WPMonad m ps] {meter : Meter m}

theorem replay_spec {t : Tally} {s : Subject} (hmeter : meter.Faithful)
    (hs : Follows algorithm capacity (t.counts, s) plain) (hpos : 0 < capacity)
    (request : Request) :
    ⦃⌜True⌝⦄ t.replay meter request s
    ⦃⇓ (t', s') => ⌜Follows algorithm capacity (t'.counts, s')
      (RecencyList.serve capacity plain request)⌝⦄ := by
  have hreplay := Tally.replay_spec hmeter
  mvcgen [hreplay]
  mframe
  rename_i hserve
  mpure_intro
  rw [hserve]
  exact hs.serve hpos request

end Subject.Follows

/-- A replay of an algorithm by recency is the replay against a list. -/
theorem replaySequential_byRecency {m : Type → Type} {ps : PostShape} [Monad m] [WPMonad m ps]
    {meter : Meter m} {capacity : Nat} (hmeter : meter.Faithful) (algorithm : Algorithm)
    (halgorithm : algorithm.isByRecency) (hpos : 0 < capacity) (requests : List Request) :
    ⦃⌜True⌝⦄ replaySequential meter requests (.new algorithm capacity hpos)
    ⦃⇓ (t, s) => ⌜Subject.Follows algorithm capacity (t.counts, s)
      (RecencyList.replay capacity requests)⌝⦄ := by
  have hreplay := replaySequential_spec hmeter
  mvcgen [hreplay]
  mframe
  rename_i hfold
  mpure_intro
  rw [hfold]
  exact .new halgorithm hpos requests

end CacheLab
