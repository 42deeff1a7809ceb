import CacheLab.Proofs.Simulation.Workers

/-!
# CacheLab.Proofs.Simulation.Pace — what a tally keeps while no operation takes too long

A tally takes in lookups and insertions, and it is merged with others. A property that all of
this keeps (`Tally.Kept`) holds of what a whole replay has counted, in either mode and however
the workers take turns: `replaySequential_keeps` and `replayConcurrent_keeps`, by induction on the
trace, and on the turns and the workers.

One such property is the pace. If no operation takes longer than some limit, then the sum of the
latencies of a tally is at most its number of operations times that limit (`Tally.Kept.paced`).
So a bound on the length of a trace bounds the sums of its replay.
-/

namespace CacheLab

open Std.Do

set_option mvcgen.warning false

variable {limit : Nat}

/-! ## Properties of tallies -/

/-- A property of tallies that is kept whatever they take in, if no operation takes longer than
the limit. -/
structure Tally.Kept (limit : Nat) (P : Tally → Prop) : Prop where
  empty : P .empty
  noteLookup : ∀ {t : Tally}, P t → ∀ {latency : Nat}, latency ≤ limit →
    ∀ (hit : Bool) (draw : Nat), P (t.noteLookup hit latency draw)
  noteInsertion : ∀ {t : Tally}, P t → ∀ {latency : Nat}, latency ≤ limit →
    ∀ (displaced : Bool) (draw : Nat), P (t.noteInsertion displaced latency draw)
  merge : ∀ {t other : Tally}, P t → P other → ∀ draws : Nat → Nat, P (t.merge other draws)

/-- The operations that were noted have taken at most the limit on average. -/
structure Tally.Paced (limit : Nat) (t : Tally) : Prop where
  gets : t.gets.total ≤ limit * t.gets.count
  puts : t.puts.total ≤ limit * t.puts.count

namespace Sampler

variable {s other : Sampler}

theorem record_le (hs : s.total ≤ limit * s.count) {latency : Nat} (hlatency : latency ≤ limit)
    (draw : Nat) : (s.record latency draw).total ≤ limit * (s.record latency draw).count := by
  show s.total + latency ≤ limit * (s.count + 1)
  rw [Nat.mul_succ]
  omega

theorem merge_le (hs : s.total ≤ limit * s.count) (hother : other.total ≤ limit * other.count)
    (draws : Nat → Nat) : (s.merge other draws).total ≤ limit * (s.merge other draws).count := by
  show s.total + other.total ≤ limit * (s.count + other.count)
  rw [Nat.mul_add]
  omega

end Sampler

theorem Tally.Kept.paced : Tally.Kept limit (Tally.Paced limit) where
  empty := ⟨Nat.zero_le _, Nat.zero_le _⟩
  noteLookup ht _ hlatency _ draw := ⟨Sampler.record_le ht.gets hlatency draw, ht.puts⟩
  noteInsertion ht _ hlatency _ draw := ⟨ht.gets, Sampler.record_le ht.puts hlatency draw⟩
  merge ht hother draws :=
    ⟨Sampler.merge_le ht.gets hother.gets draws, Sampler.merge_le ht.puts hother.puts draws⟩

section

variable {m : Type → Type} {ps : PostShape} [Monad m] [WPMonad m ps] {meter : Meter m}

/-- A faithful meter of a world where no operation takes longer than the limit. -/
structure Meter.Within (meter : Meter m) (limit : Nat) : Prop where
  faithful : meter.Faithful
  measure_le : ∀ {α : Type} (f : Unit → α), ⦃⌜True⌝⦄ meter.measure f ⦃⇓ r => ⌜r.2 ≤ limit⌝⦄

theorem Meter.Within.still : (Meter.still : Meter m).Within 0 where
  faithful := .still
  measure_le f := by
    mvcgen [Meter.still]

variable {P : Tally → Prop}

/-! ## One worker -/

namespace Tally

theorem lookUp_keeps (hP : Kept limit P) (hmeter : meter.Within limit) (t : Tally)
    (request : Request) (s : Subject) :
    ⦃⌜P t⌝⦄ t.lookUp meter request s ⦃⇓ r => ⌜P r.2.1⌝⦄ := by
  have hmeasure := @hmeter.measure_le
  have hdraws := hmeter.faithful.draws
  mvcgen [lookUp, hmeasure, hdraws]
  rename_i ht r hlatency draws
  mpure_intro
  exact hP.noteLookup ht hlatency _ _

theorem fill_keeps (hP : Kept limit P) (hmeter : meter.Within limit) (t : Tally)
    (request : Request) (s : Subject) :
    ⦃⌜P t⌝⦄ t.fill meter request s ⦃⇓ r => ⌜P r.1⌝⦄ := by
  have hmeasure := @hmeter.measure_le
  have hdraws := hmeter.faithful.draws
  mvcgen [fill, hmeasure, hdraws]
  rename_i ht r hlatency draws
  mpure_intro
  exact hP.noteInsertion ht hlatency _ _

theorem replay_keeps (hP : Kept limit P) (hmeter : meter.Within limit) (t : Tally)
    (request : Request) (s : Subject) :
    ⦃⌜P t⌝⦄ t.replay meter request s ⦃⇓ r => ⌜P r.1⌝⦄ := by
  have hlookUp := lookUp_keeps hP hmeter
  have hfill := fill_keeps hP hmeter
  mvcgen [replay, hlookUp, hfill]

theorem replayAll_keeps (hP : Kept limit P) (hmeter : meter.Within limit) (t : Tally)
    (requests : List Request) (s : Subject) :
    ⦃⌜P t⌝⦄ t.replayAll meter requests s ⦃⇓ r => ⌜P r.1⌝⦄ := by
  have hreplay := replay_keeps hP hmeter
  mvcgen [replayAll, hreplay] invariants
  · ⇓ r => ⌜P r.2.1⌝
  all_goals exact .rfl

end Tally

theorem replaySequential_keeps (hP : Tally.Kept limit P) (hmeter : meter.Within limit)
    (requests : List Request) (s : Subject) :
    ⦃⌜True⌝⦄ replaySequential meter requests s ⦃⇓ r => ⌜P r.1⌝⦄ := by
  have hreplayAll := Tally.replayAll_keeps hP hmeter
  mvcgen [replaySequential, hreplayAll]
  mpure_intro
  exact hP.empty

namespace Worker

theorem step_keeps (hP : Tally.Kept limit P) (hmeter : meter.Within limit) (w : Worker)
    (s : Subject) : ⦃⌜P w.tally⌝⦄ w.step meter s ⦃⇓ r => ⌜P r.1.tally⌝⦄ := by
  have hlookUp := Tally.lookUp_keeps hP hmeter
  have hfill := Tally.fill_keeps hP hmeter
  rcases w with ⟨_ | request, _ | ⟨request, queue⟩, tally⟩
  all_goals mvcgen [step, hlookUp, hfill]

theorem finish_keeps (hP : Tally.Kept limit P) (hmeter : meter.Within limit) (w : Worker)
    (s : Subject) : ⦃⌜P w.tally⌝⦄ w.finish meter s ⦃⇓ r => ⌜P r.1⌝⦄ := by
  have hfill := Tally.fill_keeps hP hmeter
  have hreplayAll := Tally.replayAll_keeps hP hmeter
  rcases w with ⟨_ | request, queue, tally⟩
  all_goals mvcgen [finish, hfill, hreplayAll]

end Worker

/-! ## Several workers -/

theorem takeTurns_keeps (hP : Tally.Kept limit P) (hmeter : meter.Within limit)
    (turns : List Nat) (workers : List Worker) (s : Subject) :
    ⦃⌜∀ w ∈ workers, P w.tally⌝⦄ takeTurns meter turns workers s
    ⦃⇓ r => ⌜∀ w ∈ r.1, P w.tally⌝⦄ := by
  have hstep := Worker.step_keeps hP hmeter
  induction turns generalizing workers s with
  | nil => mvcgen [takeTurns]
  | cons i turns ih =>
    cases hw : workers[i]? with
    | none => mvcgen [takeTurns, hw, ih]
    | some w =>
      mvcgen [takeTurns, hstep, hw, ih]
      · rename_i hworkers
        mpure_intro
        exact hworkers w (List.mem_of_getElem? hw)
      · rename_i hworkers r hkept
        mpure_intro
        intro w' hw'
        rcases List.mem_or_eq_of_mem_set hw' with hold | rfl
        · exact hworkers w' hold
        · exact hkept

theorem finishAll_keeps (hP : Tally.Kept limit P) (hmeter : meter.Within limit)
    (workers : List Worker) (s : Subject) :
    ⦃⌜∀ w ∈ workers, P w.tally⌝⦄ finishAll meter workers s ⦃⇓ r => ⌜∀ t ∈ r.1, P t⌝⦄ := by
  have hfinish := Worker.finish_keeps hP hmeter
  induction workers generalizing s with
  | nil =>
    mvcgen [finishAll]
    mpure_intro
    exact List.forall_mem_nil _
  | cons w workers ih =>
    mvcgen [finishAll, hfinish, ih]
    case vc1 hworkers =>
      mpure_intro
      exact (List.forall_mem_cons.mp hworkers).1
    case vc2 hworkers _ _ =>
      mpure_intro
      exact (List.forall_mem_cons.mp hworkers).2
    case vc3 hfirst _ hrest =>
      mpure_intro
      exact List.forall_mem_cons.mpr ⟨hfirst, hrest⟩

theorem replayBatch_keeps (hP : Tally.Kept limit P) (hmeter : meter.Within limit) (workers : Nat)
    (batch : List Request) (s : Subject) :
    ⦃⌜True⌝⦄ replayBatch meter workers batch s ⦃⇓ r => ⌜∀ t ∈ r.1, P t⌝⦄ := by
  have hturns := hmeter.faithful.turns
  have htakeTurns := takeTurns_keeps hP hmeter
  have hfinishAll := finishAll_keeps hP hmeter
  mvcgen [replayBatch, hturns, htakeTurns, hfinishAll]
  mpure_intro
  intro w hw
  -- at first all tallies are empty
  rcases List.mem_map.mp hw with ⟨script, _, rfl⟩
  exact hP.empty

theorem mergeAll_keeps (hP : Tally.Kept limit P) (hmeter : meter.Faithful) (t : Tally)
    {tallies : List Tally} (htallies : ∀ other ∈ tallies, P other) :
    ⦃⌜P t⌝⦄ mergeAll meter t tallies ⦃⇓ t' => ⌜P t'⌝⦄ := by
  have hdraws := hmeter.draws
  mvcgen [mergeAll] invariants
  · ⇓ r => ⌜P r.2⌝
  case vc4 done other rest hsplit t' =>
    mframe
    rename_i ht'
    mspec hdraws
    rename_i draws
    mspec
    mpure_intro
    have hother : other ∈ tallies := hsplit ▸ List.mem_append_right _ List.mem_cons_self
    exact hP.merge ht' (htallies other hother) draws
  case vc2.post.success => exact .rfl

theorem addBatch_keeps (hP : Tally.Kept limit P) (hmeter : meter.Within limit) (workers : Nat)
    (state : Tally × Subject) (batch : List Request) :
    ⦃⌜P state.1⌝⦄ addBatch meter workers state batch ⦃⇓ r => ⌜P r.1⌝⦄ := by
  have hbatch := replayBatch_keeps hP hmeter
  rw [addBatch]
  mintro hstate
  mspec hbatch workers batch state.2
  mframe
  rename_i hstate r htallies
  mspec mergeAll_keeps hP hmeter.faithful state.1 htallies
  mspec

theorem replayConcurrent_keeps (hP : Tally.Kept limit P) (hmeter : meter.Within limit)
    (workers : Nat) (requests : List Request) (s : Subject) :
    ⦃⌜True⌝⦄ replayConcurrent meter workers requests s
    ⦃(fun r => ⌜P r.1⌝, fun error => ⌜error = .allocation ∧ TooMany workers requests⌝,
      ExceptConds.false)⦄ := by
  refine replayConcurrent_induct (I := fun _ r => P r.1) hP.empty ?_ requests
  intro past batch state hstate
  have hbatch := addBatch_keeps hP hmeter
  mvcgen [hbatch]

end

end CacheLab
