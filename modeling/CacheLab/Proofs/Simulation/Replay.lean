import CacheLab.Proofs.Fallible
import CacheLab.Simulation.Replay

/-!
# CacheLab.Proofs.Simulation.Replay — a replay in sequence is a fold

A meter shows how long an operation took, but has no say in what it does. So up
to latencies a replay in sequence is a plain fold over the trace, whatever the
monad it runs in:

* `Counts` are the numbers of a tally, and `Subject.serve` is one step of the
  fold: a lookup and, on a miss, an insertion.
* `Meter.Faithful` says that a meter carries operations out.
* `Tally.replay_spec`: with such a meter, to replay a request is one step.
* `replaySequential_spec`: a replay of a trace ends with the counts and the subject
  of the fold.
-/

namespace CacheLab

open Std.Do

set_option mvcgen.warning false

/-! ## Counts -/

/-- The numbers of a tally. -/
structure Counts where
  hits : Nat := 0
  misses : Nat := 0
  evictions : Nat := 0
  lookups : Nat := 0
  insertions : Nat := 0
deriving DecidableEq, Repr

namespace Counts

/-- Counts a lookup. -/
def noteLookup (n : Counts) (hit : Bool) : Counts :=
  { n with
    hits := if hit then n.hits + 1 else n.hits
    misses := if hit then n.misses else n.misses + 1
    lookups := n.lookups + 1 }

/-- Counts an insertion. -/
def noteInsertion (n : Counts) (displaced : Bool) : Counts :=
  { n with
    evictions := if displaced then n.evictions + 1 else n.evictions
    insertions := n.insertions + 1 }

end Counts

/-- The tally without its latencies. -/
def Tally.counts (t : Tally) : Counts :=
  ⟨t.hits, t.misses, t.evictions, t.gets.count, t.puts.count⟩

/-! ## The fold -/

/-- Replays one request without a meter. -/
def Subject.serve (state : Counts × Subject) (request : Request) : Counts × Subject :=
  let (hit, s) := state.2.get request.key
  let n := state.1.noteLookup hit
  if hit then
    (n, s)
  else
    let (displaced, s) := s.put request.key request.stored
    (n.noteInsertion displaced, s)

namespace Subject

variable {n : Counts} {s s' s'' : Subject} {request : Request}

theorem serve_of_hit (hget : s.get request.key = (true, s')) :
    serve (n, s) request = (n.noteLookup true, s') := by
  rw [serve, hget]
  rfl

theorem serve_of_miss {displaced : Bool} (hget : s.get request.key = (false, s'))
    (hput : s'.put request.key request.stored = (displaced, s'')) :
    serve (n, s) request = ((n.noteLookup false).noteInsertion displaced, s'') := by
  rw [serve, hget]
  dsimp only
  rw [hput]
  rfl

end Subject

section

variable {m : Type → Type} {ps : PostShape} [Monad m] [WPMonad m ps] {meter : Meter m}

/-- A meter that carries every operation out and answers what it answered, with
some draws and some turns at hand. -/
structure Meter.Faithful (meter : Meter m) : Prop where
  measure : ∀ {α : Type} (f : Unit → α), ⦃⌜True⌝⦄ meter.measure f ⦃⇓ r => ⌜r.1 = f ()⌝⦄
  draws : ⦃⌜True⌝⦄ meter.draws ⦃⇓ _ => ⌜True⌝⦄
  turns : ∀ workers requests, ⦃⌜True⌝⦄ meter.turns workers requests ⦃⇓ _ => ⌜True⌝⦄

theorem Meter.Faithful.still : (Meter.still : Meter m).Faithful where
  measure f := by
    mvcgen [Meter.still]
  draws := by
    mvcgen [Meter.still]
  turns workers requests := by
    mvcgen [Meter.still]

namespace Tally

theorem lookUp_spec (hmeter : meter.Faithful) (t : Tally) (request : Request) (s : Subject) :
    ⦃⌜True⌝⦄ t.lookUp meter request s
    ⦃⇓ r => ⌜(r.1, r.2.2) = s.get request.key ∧ r.2.1.counts = t.counts.noteLookup r.1⌝⦄ := by
  have hmeasure := @hmeter.measure
  have hdraws := hmeter.draws
  mvcgen [lookUp, hmeasure, hdraws]

theorem fill_spec (hmeter : meter.Faithful) (t : Tally) (request : Request) (s : Subject) :
    ⦃⌜True⌝⦄ t.fill meter request s
    ⦃⇓ r => ⌜∃ displaced, (displaced, r.2) = s.put request.key request.stored ∧
      r.1.counts = t.counts.noteInsertion displaced⌝⦄ := by
  have hmeasure := @hmeter.measure
  have hdraws := hmeter.draws
  mvcgen [fill, hmeasure, hdraws]
  rename_i hput _
  mpure_intro
  exact ⟨_, hput, rfl⟩

/-- One request is one step of the fold. -/
theorem replay_spec (hmeter : meter.Faithful) (t : Tally) (request : Request) (s : Subject) :
    ⦃⌜True⌝⦄ t.replay meter request s
    ⦃⇓ r => ⌜(r.1.counts, r.2) = Subject.serve (t.counts, s) request⌝⦄ := by
  have hlookUp := lookUp_spec hmeter
  have hfill := fill_spec hmeter
  mvcgen [replay, hlookUp, hfill]
  case vc1.success.isTrue r hhit hlookedUp =>
    rcases r with ⟨hit, t', s'⟩
    rcases hlookedUp with ⟨hget, hcounts⟩
    mpure_intro
    rw [Subject.serve_of_hit (hhit ▸ hget.symm), hcounts, hhit]
  case vc2.success.isFalse.success r hmiss hlookedUp filled =>
    rcases r with ⟨hit, t', s'⟩
    rcases hlookedUp with ⟨hget, hcounts⟩
    rw [eq_false_of_ne_true hmiss] at hget hcounts
    mframe
    rename_i hfilled
    rcases hfilled with ⟨displaced, hput, hcounts'⟩
    mpure_intro
    rw [Subject.serve_of_miss hget.symm hput.symm, hcounts', hcounts]

/-- Requests one after another are steps of the fold one after another. -/
theorem replayAll_spec (hmeter : meter.Faithful) (t : Tally) (requests : List Request)
    (s : Subject) :
    ⦃⌜True⌝⦄ t.replayAll meter requests s
    ⦃⇓ r => ⌜(r.1.counts, r.2) = requests.foldl Subject.serve (t.counts, s)⌝⦄ := by
  mvcgen [replayAll] invariants
  · ⇓ (done, r) => ⌜(r.1.counts, r.2) = done.prefix.foldl Subject.serve (t.counts, s)⌝
  case vc1.step done request rest _ state =>
    mspec replay_spec hmeter state.1 request state.2
    mframe
    rename_i hdone r hreplay
    mpure_intro
    rw [List.foldl_append, ← hdone]
    exact hreplay
  all_goals simp

end Tally

theorem replaySequential_spec (hmeter : meter.Faithful) (requests : List Request) (s : Subject) :
    ⦃⌜True⌝⦄ replaySequential meter requests s
    ⦃⇓ r => ⌜(r.1.counts, r.2) = requests.foldl Subject.serve ({}, s)⌝⦄ :=
  Tally.replayAll_spec hmeter Tally.empty requests s

end

end CacheLab
