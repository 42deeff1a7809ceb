import CacheLab.Proofs.Simulation.Exactness
import CacheLab.Proofs.Simulation.Memory
import CacheLab.Proofs.Simulation.ReferenceCheck

/-!
# CacheLab.Proofs.Simulation.RunEnds — how the runs of a simulation end

A run makes the tables of a cache and, in concurrent mode, lists of the workers. `Affords` says that
all of this takes no more bytes than there can be, and it decides how the run ends.

* `replay_ends`: a run that is afforded serves each request once, and its tally has what a replay
  keeps. So it covers the trace (`replay_covers`), and no addition on the way leaves the words
  (`replay_exact`). Its score is one more that covers the trace (`perform_ends`), and by induction
  on the planned runs all of them do (`foldlM_perform_ends`).
* `perform_fails`: a run that is not afforded stops the simulation, and the error says what was
  too large.
-/

namespace CacheLab

open Std.Do

set_option mvcgen.warning false

variable {limit : Nat} {m : Type → Type} {ps : PostShape} [Monad m] [WPMonad m ps] {host : Host m}

namespace Experiment

/-! ## Steps of a simulation -/

theorem printAll_ends (hhost : host.Reliable) (lines : List String) :
    ⦃⌜True⌝⦄ printAll host lines ⦃⇓ _ => ⌜True⌝⦄ := by
  have hprint := hhost.print
  induction lines with
  | nil =>
    have hnil : printAll host [] = pure () := rfl
    mvcgen [hnil]
  | cons line lines ih =>
    have hcons : printAll host (line :: lines) = (do
        liftM (host.print line)
        printAll host lines) := rfl
    mvcgen [hcons, hprint, ih]

theorem checked_ends {α : Type} (result : Except Overflow α) :
    ⦃⌜∃ a, result = .ok a⌝⦄ (checked result : ExceptT SimulationError m α)
    ⦃⇓ a => ⌜result = .ok a⌝⦄ := by
  cases result with
  | ok a =>
    have hok : (checked (.ok a) : ExceptT SimulationError m α) = pure a := rfl
    mvcgen [hok]
  | error operation =>
    mintro hresult
    mpure hresult
    rcases hresult with ⟨a, ha⟩
    cases ha

variable {e : Experiment}

/-- Everything that has to be made for a run takes no more bytes than there can be: the tables
of the cache and, in concurrent mode, a list of the workers. -/
structure Affords (e : Experiment) (run : Run) : Prop where
  tables : e.capacity ≤ run.algorithm.mostEntries
  workers : run.mode = .concurrent → e.workers * Worker.bytes ≤ memoryLimit

/-- What is too large for a run that is not afforded. -/
def shortage (e : Experiment) (run : Run) : Overflow :=
  if e.capacity ≤ run.algorithm.mostEntries then .allocation else .table

/-! ## The cache to begin with -/

/-- Only the concurrent form of the reference has no policy to share. -/
theorem policy?_ne_none {run : Run} (hpossible : run ≠ ⟨.referenceLru, .concurrent⟩)
    (hmode : run.mode = .concurrent) : run.algorithm.policy? ≠ none := by
  rcases run with ⟨algorithm, mode⟩
  obtain rfl : mode = .concurrent := hmode
  cases algorithm with
  | referenceLru => exact absurd rfl hpossible
  | lru | fifo | lfu => exact nofun

/-- There is an empty cache, except for the concurrent form of the reference. -/
theorem subject_ends (fits : 0 < e.capacity) {run : Run}
    (htables : e.capacity ≤ run.algorithm.mostEntries)
    (hpossible : run ≠ ⟨.referenceLru, .concurrent⟩) :
    ⦃⌜True⌝⦄ (e.subject fits run : ExceptT SimulationError m Subject) ⦃⇓ _ => ⌜True⌝⦄ := by
  have hchecked := @checked_ends m ps _ _
  have hmemory := (run.algorithm.memory?_ok_iff e.capacity).mpr htables
  mvcgen [subject, hchecked]
  case vc3 hpolicy hmode => exact absurd hpolicy (policy?_ne_none hpossible hmode)

/-- There is none if its tables are too large. -/
theorem subject_fails (fits : 0 < e.capacity) {run : Run}
    (hlarge : run.algorithm.mostEntries < e.capacity)
    (hpossible : run ≠ ⟨.referenceLru, .concurrent⟩) :
    ⦃⌜True⌝⦄ (e.subject fits run : ExceptT SimulationError m Subject)
    ⦃(fun _ => ⌜False⌝, fun error => ⌜error = .overflow .table⌝, ExceptConds.false)⦄ := by
  have hmemory := Algorithm.memory?_of_lt hlarge
  have hchecked : (checked (run.algorithm.memory? e.capacity) : ExceptT SimulationError m Nat) =
      throw (.overflow .table) := by
    rw [hmemory]
    rfl
  mvcgen [subject, hchecked]
  rename_i hpolicy hmode
  exact absurd hpolicy (policy?_ne_none hpossible hmode)

/-! ## Replays -/

variable {P : Tally → Prop}

/-- A run serves each request once, and its tally has whatever a replay keeps. -/
theorem replay_ends (hclock : ⦃⌜True⌝⦄ host.clock ⦃⇓ _ => ⌜True⌝⦄)
    (hmeter : host.meter.Within limit) (hP : Tally.Kept limit P) (fits : 0 < e.capacity)
    (requests : List Request) {run : Run} (hafford : e.Affords run)
    (hpossible : run ≠ ⟨.referenceLru, .concurrent⟩) :
    ⦃⌜True⌝⦄ e.replay host fits requests run
    ⦃⇓ r => ⌜(∃ s s', Progress (.waiting requests, s) (.done r.1.counts, s')) ∧ P r.1⌝⦄ := by
  have hsubject := subject_ends (m := m) fits hafford.tables hpossible
  have hsequential : ∀ s, ⦃⌜True⌝⦄ replaySequential host.meter requests s
      ⦃⇓ r => ⌜(∃ s s', Progress (.waiting requests, s) (.done r.1.counts, s')) ∧ P r.1⌝⦄ := by
    intro s
    refine ends_of_both (replaySequential_spec hmeter.faithful requests s)
      (replaySequential_keeps hP hmeter requests s) ?_
    intro r hfold hkept
    have hserve := Progress.serveAll requests {} s
    rw [← hfold] at hserve
    exact ⟨⟨s, r.2, hserve⟩, hkept⟩
  rcases run with ⟨algorithm, _ | _⟩
  · mvcgen [replay, hclock, hsubject, hsequential]
  · have hworkers : ¬ TooMany e.workers requests := not_tooMany fun _ => hafford.workers rfl
    have hconcurrent : ∀ s, ⦃⌜True⌝⦄ replayConcurrent host.meter e.workers requests s
        ⦃⇓ r => ⌜(∃ s s', Progress (.waiting requests, s) (.done r.1.counts, s')) ∧ P r.1⌝⦄ := by
      intro s
      refine ends_of_both (replayConcurrent_progress hmeter.faithful
        (fun _ => hafford.workers rfl) s)
        (ends_of_never (replayConcurrent_keeps hP hmeter e.workers requests s)
          fun _ herror => hworkers herror.2) ?_
      intro r hprogress hkept
      exact ⟨⟨s, r.2, hprogress⟩, hkept⟩
    mvcgen [replay, hclock, hsubject, hconcurrent]

theorem replay_covers (hclock : ⦃⌜True⌝⦄ host.clock ⦃⇓ _ => ⌜True⌝⦄)
    (hmeter : host.meter.Within limit) (fits : 0 < e.capacity) (requests : List Request)
    {run : Run} (hafford : e.Affords run) (hpossible : run ≠ ⟨.referenceLru, .concurrent⟩) :
    ⦃⌜True⌝⦄ e.replay host fits requests run ⦃⇓ r => ⌜r.1.Covers limit requests.length⌝⦄ := by
  have hends := replay_ends hclock hmeter .paced fits requests hafford hpossible
  mvcgen [hends]
  mframe
  rename_i r hr
  rcases hr with ⟨⟨s, s', hprogress⟩, hpaced⟩
  mpure_intro
  exact .of_progress hprogress hpaced

/-- If the trace is short enough, no addition of the replay leaves the words. -/
theorem replay_exact (hclock : ⦃⌜True⌝⦄ host.clock ⦃⇓ _ => ⌜True⌝⦄)
    (hmeter : host.meter.Within limit) (fits : 0 < e.capacity) {requests : List Request}
    (hlimit : 2 * requests.length * (limit + 1) < wordCount) {run : Run}
    (hafford : e.Affords run) (hpossible : run ≠ ⟨.referenceLru, .concurrent⟩) :
    ⦃⌜True⌝⦄ e.replay host fits requests run ⦃⇓ r => ⌜r.1.Exact⌝⦄ := by
  refine ends_of_both (replay_covers hclock hmeter fits requests hafford hpossible)
    (replay_ends hclock hmeter .exact fits requests hafford hpossible) ?_
  intro r hcovers hexact
  exact hexact.2 (.of_covers hcovers hlimit)

/-- A run that is not afforded comes to no end. -/
theorem replay_fails (hclock : ⦃⌜True⌝⦄ host.clock ⦃⇓ _ => ⌜True⌝⦄) (fits : 0 < e.capacity)
    {requests : List Request} (hrequests : requests ≠ []) {run : Run} (hshort : ¬ e.Affords run)
    (hpossible : run ≠ ⟨.referenceLru, .concurrent⟩) :
    ⦃⌜True⌝⦄ e.replay host fits requests run
    ⦃(fun _ => ⌜False⌝, fun error => ⌜error = .overflow (e.shortage run)⌝,
      ExceptConds.false)⦄ := by
  by_cases htables : e.capacity ≤ run.algorithm.mostEntries
  · have hsubject := subject_ends (m := m) fits htables hpossible
    rw [shortage, if_pos htables]
    rcases run with ⟨algorithm, _ | _⟩
    · exact absurd ⟨htables, nofun⟩ hshort
    · have hmany : ¬ e.workers * Worker.bytes ≤ memoryLimit := fun hfew =>
        hshort ⟨htables, fun _ => hfew⟩
      have htoo : TooMany e.workers requests := by
        refine ⟨hrequests, ?_⟩
        rw [Worker.bytes, memoryLimit] at hmany ⊢
        omega
      have hconcurrent : ∀ s, replayConcurrent host.meter e.workers requests s =
          throw .allocation := replayConcurrent_of_tooMany htoo
      mvcgen [replay, hclock, hsubject, hconcurrent]
  · have hsubject := subject_fails (m := m) fits (Nat.not_le.mp htables) hpossible
    rw [shortage, if_neg htables]
    mvcgen [replay, hclock, hsubject]

/-! ## Performed runs -/

/-- One more run is done. -/
theorem perform_ends (hhost : host.Reliable) (hmeter : host.meter.Within limit)
    (fits : 0 < e.capacity) (requests : List Request)
    (hlimit : 2 * requests.length * (limit + 1) < wordCount) {planned done : List Run}
    {r : Results} {run : Run} (hafford : e.Affords run)
    (hpossible : run ≠ ⟨.referenceLru, .concurrent⟩)
    (hr : r.Covers planned done requests.length) :
    ⦃⌜True⌝⦄ e.perform host fits requests r run
    ⦃⇓ r' => ⌜r'.Covers planned (done ++ [run]) requests.length⌝⦄ := by
  have hprint := printAll_ends hhost
  have hreplay := replay_covers hhost.clock hmeter fits requests hafford hpossible
  have hchecked := @checked_ends m ps _ _
  have hlines : ∀ {t : Tally}, t.Covers limit requests.length →
      ∃ lines, t.latencies.lines? = .ok lines :=
    fun ht => (ht.areWords hlimit).2.lines?_ok
  mvcgen [perform, hprint, hreplay, hchecked]
  case vc1 ht =>
    mpure_intro
    exact hlines ht
  case vc2 ht _ _ _ =>
    mpure_intro
    exact hr.record run ht hlimit _ _

/-- All runs are done, one after another. -/
theorem foldlM_perform_ends (hhost : host.Reliable) (hmeter : host.meter.Within limit)
    (fits : 0 < e.capacity) (requests : List Request)
    (hlimit : 2 * requests.length * (limit + 1) < wordCount) (planned : List Run) {runs : List Run}
    (hruns : ∀ run ∈ runs, e.Affords run ∧ run ≠ ⟨.referenceLru, .concurrent⟩) :
    ⦃⌜True⌝⦄ runs.foldlM (e.perform host fits requests) (Results.new planned)
    ⦃⇓ r => ⌜r.Covers planned runs requests.length⌝⦄ := by
  mvcgen invariants
  · ⇓ r => ⌜r.2.Covers planned ( List.Cursor.prefix r.1) requests.length⌝
  case vc1.step done run rest hsplit r =>
    mframe
    rename_i hr
    rcases hruns run (hsplit ▸ List.mem_append_right _ List.mem_cons_self) with
      ⟨hafford, hpossible⟩
    exact perform_ends hhost hmeter fits requests hlimit hafford hpossible hr
  case vc2.pre =>
    mpure_intro
    exact .new planned _
  case vc3.post.success r =>
    exact .rfl

/-- A run that is not afforded stops what comes after it. -/
theorem perform_fails (hhost : host.Reliable) (fits : 0 < e.capacity) {requests : List Request}
    (hrequests : requests ≠ []) {run : Run} (hshort : ¬ e.Affords run)
    (hpossible : run ≠ ⟨.referenceLru, .concurrent⟩) (r : Results) :
    ⦃⌜True⌝⦄ e.perform host fits requests r run
    ⦃(fun _ => ⌜False⌝, fun error => ⌜error = .overflow (e.shortage run)⌝,
      ExceptConds.false)⦄ := by
  have hprint := printAll_ends hhost
  have hreplay := replay_fails hhost.clock fits hrequests hshort hpossible
  mvcgen [perform, hprint, hreplay]

theorem foldlM_perform_fails (hhost : host.Reliable) (hmeter : host.meter.Within limit)
    (fits : 0 < e.capacity) {requests : List Request} (hrequests : requests ≠ [])
    (hlimit : 2 * requests.length * (limit + 1) < wordCount) (planned behind : List Run)
    {before : List Run}
    (hbefore : ∀ run ∈ before, e.Affords run ∧ run ≠ ⟨.referenceLru, .concurrent⟩) {run : Run}
    (hshort : ¬ e.Affords run) (hpossible : run ≠ ⟨.referenceLru, .concurrent⟩) :
    ⦃⌜True⌝⦄
      (before ++ run :: behind).foldlM (e.perform host fits requests) (Results.new planned)
    ⦃(fun _ => ⌜False⌝, fun error => ⌜error = .overflow (e.shortage run)⌝,
      ExceptConds.false)⦄ := by
  rw [List.foldlM_append]
  simp only [List.foldlM_cons]
  mintro _
  mspec foldlM_perform_ends hhost hmeter fits requests hlimit planned hbefore
  mspec perform_fails hhost fits hrequests hshort hpossible _
  -- there is no result to go on with
  mframe
  rename_i hnever
  exact hnever.elim

end Experiment

end CacheLab
