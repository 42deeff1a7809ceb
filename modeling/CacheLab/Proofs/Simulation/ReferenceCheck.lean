import CacheLab.Proofs.Simulation.ByRecency
import CacheLab.Proofs.Simulation.Results
import CacheLab.Proofs.Simulation.Workers
import CacheLab.Simulation
import Mathlib.Control.Traversable.Basic

/-!
# CacheLab.Proofs.Simulation.ReferenceCheck — `lru` agrees with the reference algorithm

A simulation compares the hits under `lru` with those of the reference
algorithm. Both replays are the replay against one list, so they agree in
everything that can be seen of them, request by request, and the comparison
comes out equal.

* `Results.Records` is what holds while a simulation carries out its runs: each
  compared run that is done has recorded the hits of the list. `perform_spec` is
  one run.
* `reference_check` has both: the replays agree on every trace, and a
  simulation that runs both reports a match.
-/

namespace CacheLab

open Std.Do

set_option mvcgen.warning false

/-- Whether the run takes part in the check against the reference. -/
def Run.isCompared (run : Run) : Prop := run.mode = .sequential ∧ run.algorithm.isByRecency

/-! ## Recorded hits -/

namespace Results

variable {r : Results} {planned done : List Run} {run : Run} {hits : Nat} {f : Score → Score}

/-- The planned runs have a score, and the compared ones among those that are done
have the given number of hits. -/
structure Records (r : Results) (planned done : List Run) (hits : Nat) : Prop where
  isSome_iff : ∀ run, r[run]?.isSome ↔ run ∈ planned
  hits_eq : ∀ run ∈ done, run.isCompared → ∀ score, r[run]? = some score → score.hits = hits

namespace Records

theorem new (planned : List Run) (hits : Nat) : (Results.new planned).Records planned [] hits where
  isSome_iff := isSome_getElem?_new planned
  hits_eq _ hdone := nomatch hdone

/-- A score may change if its hits are right in case the run counts as done afterwards. -/
theorem update {done' : List Run} (hr : r.Records planned done hits)
    (hdone : ∀ run' ∈ done', run' ≠ run → run' ∈ done)
    (hf : ∀ score, r[run]? = some score → run ∈ done' → run.isCompared → (f score).hits = hits) :
    (r.update run f).Records planned done' hits where
  isSome_iff run' := by
    rw [isSome_getElem?_update]
    exact hr.isSome_iff run'
  hits_eq run' hmem hcompared score hscore := by
    rw [getElem?_update] at hscore
    by_cases hrun : run = run'
    · subst hrun
      rw [if_pos rfl, Option.map_eq_some_iff] at hscore
      rcases hscore with ⟨before, hbefore, rfl⟩
      exact hf before hbefore hmem hcompared
    · rw [if_neg hrun] at hscore
      exact hr.hits_eq run' (hdone run' hmem (Ne.symm hrun)) hcompared score hscore

/-- What is recorded at the end of a run. -/
theorem record {ours : Nat} (hr : r.Records planned done hits)
    (hours : run.isCompared → ours = hits) (misses evictions millis : Nat) (latencies : Latencies) :
    (((r.recordCounts run ours misses evictions).recordTime run millis).recordLatencies run
      latencies).Records planned (done ++ [run]) hits := by
  have hcounts : (r.recordCounts run ours misses evictions).Records planned (done ++ [run])
      hits := by
    apply hr.update
    · intro run' hmem hne
      exact (List.mem_append.mp hmem).resolve_right fun h => hne (List.mem_singleton.mp h)
    · intro _ _ _ hcompared
      exact hours hcompared
  -- the time and the latencies leave the hits alone
  have htime : ((r.recordCounts run ours misses evictions).recordTime run millis).Records planned
      (done ++ [run]) hits :=
    hcounts.update (fun _ hmem _ => hmem) fun score hscore hmem hcompared =>
      hcounts.hits_eq run hmem hcompared score hscore
  exact htime.update (fun _ hmem _ => hmem) fun score hscore hmem hcompared =>
    htime.hits_eq run hmem hcompared score hscore

/-- Once all runs are done, the check reports a match if both runs were planned,
and nothing otherwise. -/
theorem referenceCheck_eq (hr : r.Records planned planned hits) :
    r.referenceCheck =
      if ⟨.lru, .sequential⟩ ∈ planned ∧ ⟨.referenceLru, .sequential⟩ ∈ planned then
        ["", s!"Reference check: LRU matches the lru crate ({hits} hits)"]
      else [] := by
  have hplanned := hr.isSome_iff ⟨.lru, .sequential⟩
  have hplanned' := hr.isSome_iff ⟨.referenceLru, .sequential⟩
  unfold referenceCheck referenceHits?
  cases hlru : r[Run.mk .lru .sequential]? with
  | none =>
    rw [hlru] at hplanned
    rw [if_neg fun h => nomatch hplanned.mpr h.1]
    rfl
  | some ours =>
    cases hreference : r[Run.mk .referenceLru .sequential]? with
    | none =>
      rw [hreference] at hplanned'
      rw [if_neg fun h => nomatch hplanned'.mpr h.2]
      rfl
    | some reference =>
      have hmem := hplanned.mp (by rw [hlru]; rfl)
      have hmem' := hplanned'.mp (by rw [hreference]; rfl)
      have hours := hr.hits_eq _ hmem ⟨rfl, rfl⟩ ours hlru
      have htheirs := hr.hits_eq _ hmem' ⟨rfl, rfl⟩ reference hreference
      rw [if_pos ⟨hmem, hmem'⟩, ← hours]
      exact if_pos (hours.trans htheirs.symm)

end Records

end Results

/-! ## Runs -/

variable {m : Type → Type} {ps : PostShape} [Monad m] [WPMonad m ps] {host : Host m}

/-- A host with a faithful meter that prints lines and tells the time. -/
structure Host.Reliable (host : Host m) : Prop where
  meter : host.meter.Faithful
  print : ∀ line, ⦃⌜True⌝⦄ host.print line ⦃⇓ _ => ⌜True⌝⦄
  clock : ⦃⌜True⌝⦄ host.clock ⦃⇓ _ => ⌜True⌝⦄

namespace Experiment

theorem printAll_spec (hhost : host.Reliable) (lines : List String) :
    ⦃⌜True⌝⦄ printAll host lines ⦃⇓? _ => ⌜True⌝⦄ := by
  have hprint := hhost.print
  induction lines with
  | nil =>
    have hnil : printAll host [] = pure () := rfl
    mvcgen [hnil]
  | cons line lines ih =>
    have hcons : printAll host (line :: lines) = (do
        liftM (host.print line)
        printAll host lines) := rfl
    mvcgen [hcons, hprint, ih]

theorem checked_spec {α : Type} (result : Except Overflow α) :
    ⦃⌜True⌝⦄ (checked result : ExceptT SimulationError m α) ⦃⇓? _ => ⌜True⌝⦄ := by
  cases result with
  | ok a =>
    have hok : (checked (.ok a) : ExceptT SimulationError m α) = pure a := rfl
    mvcgen [hok]
  | error operation =>
    have herror : (checked (.error operation) : ExceptT SimulationError m α) =
      throw (.overflow operation) := rfl
    mvcgen [herror]

variable {e : Experiment}

/-- In sequential mode a run starts with an empty cache of its algorithm. -/
theorem subject_spec (fits : 0 < e.capacity) (run : Run) :
    ⦃⌜True⌝⦄ (e.subject fits run : ExceptT SimulationError m Subject)
    ⦃⇓? s => ⌜run.mode = .sequential → s = .new run.algorithm e.capacity fits⌝⦄ := by
  have hchecked := @checked_spec m ps _ _
  mvcgen [subject, hchecked]
  case vc1 =>
    mpure_intro
    exact fun _ => trivial
  case vc2 hmode _ =>
    mpure_intro
    intro hsequential
    cases hsequential.symm.trans hmode

/-- A compared run counts what the list counts. -/
theorem replay_spec (hhost : host.Reliable) (fits : 0 < e.capacity) (requests : List Request)
    (run : Run) :
    ⦃⌜True⌝⦄ e.replay host fits requests run
    ⦃⇓? r => ⌜run.isCompared → r.1.counts = (RecencyList.replay e.capacity requests).1⌝⦄ := by
  have hclock := hhost.clock
  have hsubject := @subject_spec m ps _ _ e fits
  have hsequential := replaySequential_spec hhost.meter
  have hconcurrent := replayConcurrent_spec hhost.meter
  rcases run with ⟨algorithm, _ | _⟩
  · mvcgen [replay, hclock, hsubject, hsequential]
    rename_i r hfold _ hs
    mpure_intro
    intro hcompared
    have hfollows := Subject.Follows.new hcompared.2 fits requests
    rw [← hs, ← hfold] at hfollows
    exact hfollows.counts_eq
  · mvcgen [replay, hclock, hsubject, hconcurrent]
    mpure_intro
    intro hcompared
    cases hcompared.1

/-- One more run is done. -/
theorem perform_spec (hhost : host.Reliable) (fits : 0 < e.capacity) (requests : List Request)
    {planned done : List Run} {r : Results} (run : Run)
    (hr : r.Records planned done (RecencyList.replay e.capacity requests).1.hits) :
    ⦃⌜True⌝⦄ e.perform host fits requests r run
    ⦃⇓? r' => ⌜r'.Records planned (done ++ [run])
      (RecencyList.replay e.capacity requests).1.hits⌝⦄ := by
  have hreplay := @replay_spec m ps _ _ host e hhost
  have hprint := printAll_spec hhost
  have hchecked := @checked_spec m ps _ _
  mvcgen [perform, hreplay, hprint, hchecked]
  -- the two modes differ only in what they check beforehand
  all_goals
    rename_i hcounts _ _
    mpure_intro
    exact hr.record (fun hcompared => congrArg Counts.hits (hcounts hcompared)) _ _ _ _

/-- All runs are done, one after another. -/
theorem foldlM_perform_spec (hhost : host.Reliable) (fits : 0 < e.capacity)
    (requests : List Request) (runs : List Run) :
    ⦃⌜True⌝⦄ runs.foldlM (e.perform host fits requests) (Results.new runs)
    ⦃⇓? r => ⌜r.Records runs runs (RecencyList.replay e.capacity requests).1.hits⌝⦄ := by
  mvcgen invariants
  · ⇓? (done, r) => ⌜r.Records runs done.prefix (RecencyList.replay e.capacity requests).1.hits⌝
  case vc1.step done run rest _ r =>
    mframe
    rename_i hr
    exact perform_spec hhost fits requests run hr
  case vc2.pre =>
    mpure_intro
    exact .new runs _
  case vc3.post.success r =>
    exact .rfl

end Experiment

/-- A replay under `lru` and one of the reference algorithm have the same counts
after every request and hold the same entries in the order in which they leave.
So when a simulation has carried out its runs, the check reports a match if both
are among them, and nothing otherwise. -/
theorem reference_check (hhost : host.Reliable) :
    (∀ (capacity : Nat) (hpos : 0 < capacity) (requests : List Request),
      ∃ (counts : Counts) (leaving : List (String × Nat)),
        ∀ algorithm ∈ [Algorithm.lru, .referenceLru],
          ⦃⌜True⌝⦄ replaySequential host.meter requests (.new algorithm capacity hpos)
          ⦃⇓ r => ⌜r.1.counts = counts ∧ r.2.size = leaving.length ∧ r.2.leaving = leaving⌝⦄) ∧
    ∀ (e : Experiment) (fits : 0 < e.capacity) (requests : List Request),
      let runs := Run.plan e.algorithms e.modes
      ⦃⌜True⌝⦄ runs.foldlM (e.perform host fits requests) (Results.new runs)
      ⦃⇓? r => ⌜∃ hits : Nat, r.referenceCheck =
        if ⟨.lru, .sequential⟩ ∈ runs ∧ ⟨.referenceLru, .sequential⟩ ∈ runs then
          ["", s!"Reference check: LRU matches the lru crate ({hits} hits)"]
        else []⌝⦄ := by
  constructor
  · intro capacity hpos requests
    refine ⟨(RecencyList.replay capacity requests).1,
      (RecencyList.replay capacity requests).2.reverse, ?_⟩
    intro algorithm halgorithm
    have hby : algorithm.isByRecency := by
      rcases List.mem_pair.mp halgorithm with rfl | rfl <;> rfl
    have hreplay := replaySequential_byRecency hhost.meter algorithm hby hpos
    mvcgen [hreplay]
    mframe
    rename_i hfollows
    mpure_intro
    refine ⟨hfollows.counts_eq, ?_, hfollows.holds.leaving_eq⟩
    rw [hfollows.holds.size_eq, List.length_reverse]
  · intro e fits requests runs
    have hperform := Experiment.foldlM_perform_spec hhost fits requests runs
    mintro -
    mspec hperform
    mframe
    rename_i r hr
    mpure_intro
    exact ⟨_, hr.referenceCheck_eq⟩

theorem Workspace.host_reliable : Workspace.host.Reliable where
  meter := .still
  print line := by
    mvcgen [Workspace.host]
  clock := by
    mvcgen [Workspace.host]

/-- Two entries, and the trace a b a c b: only the second a is a hit, and the
inserts of c and of the second b evict. -/
theorem reference_check_two_entries :
    let requests : List Request :=
      [⟨0, "a", 10, 0⟩, ⟨1, "b", 20, 0⟩, ⟨2, "a", 10, 0⟩, ⟨3, "c", 30, 0⟩, ⟨4, "b", 20, 0⟩]
    let ours := (replaySequential Workspace.host.meter requests (.new .lru 2 (by decide))).run' {}
    let e : Experiment := ⟨"logs", 2, [.lru, .referenceLru], [.sequential], 1⟩
    let runs := Run.plan e.algorithms e.modes
    Workspace.host.Reliable ∧
      (ours.1.counts = ⟨1, 4, 2, 5, 4⟩ ∧ ours.2.size = 2 ∧
        ours.2.leaving = [("c", 30), ("b", 20)]) ∧
      ⦃⌜True⌝⦄ runs.foldlM (e.perform Workspace.host (by decide) requests) (Results.new runs)
      ⦃⇓? r => ⌜∃ hits : Nat, r.referenceCheck =
        if ⟨.lru, .sequential⟩ ∈ runs ∧ ⟨.referenceLru, .sequential⟩ ∈ runs then
          ["", s!"Reference check: LRU matches the lru crate ({hits} hits)"]
        else []⌝⦄ := by
  intro requests ours e runs
  have hpos : 0 < 2 := by decide
  rcases reference_check Workspace.host_reliable with ⟨hreplay, hcheck⟩
  have hrun : ∀ requests, ∃ counts leaving, ∀ algorithm ∈ [Algorithm.lru, .referenceLru],
      let r := (replaySequential Workspace.host.meter requests (.new algorithm 2 hpos)).run' {}
      r.1.counts = counts ∧ r.2.size = leaving.length ∧ r.2.leaving = leaving := by
    intro requests
    rcases hreplay 2 hpos requests with ⟨counts, leaving, hagree⟩
    exact ⟨counts, leaving, fun algorithm h => StateM.of_wp_run'_eq rfl _ (hagree algorithm h {})⟩
  rcases hrun requests with ⟨counts, leaving, hagree⟩
  have hours := hagree .lru (by simp)
  -- the reference algorithm is the one to evaluate
  have htheirs := hagree .referenceLru (by simp)
  have hcounts : counts = ⟨1, 4, 2, 5, 4⟩ := htheirs.1.symm
  have hleaving : leaving = [("c", 30), ("b", 20)] := htheirs.2.2.symm
  rw [hcounts, hleaving] at hours
  exact ⟨Workspace.host_reliable, hours, hcheck e hpos requests⟩

end CacheLab
