import CacheLab.Proofs.Simulation.Visits

/-!
# CacheLab.Proofs.Simulation.Workers — workers keep account of their requests

A call of a worker is at most one visit to the shared cache, which moves a request of
this worker and leaves the load of the others alone. So whoever is given the next turn,
account is kept of all requests:

* `Worker.step_spec` and `Worker.finish_spec` for one worker;
* `takeTurns_spec` and `finishAll_spec` for several of them, by induction on the turns and
  on the workers;
* `deal_perm` and `flatten_batches`: dealing a batch and cutting a trace into batches
  lose and repeat no request;
* `replayConcurrent_induct`: what each batch keeps holds in the end, and only a list of too many
  workers keeps a replay from its end. So it starts with all requests waiting and ends with
  none waiting and none pending (`replayConcurrent_spec`).
-/

namespace CacheLab

open Std.Do

set_option mvcgen.warning false

/-! ## Batches and dealing -/

theorem flatten_batches {α : Type} (n : Nat) (l : List α) : (batches n l).flatten = l := by
  induction l using batches.induct n with
  | case1 => rw [batches, List.flatten_nil]
  | case2 a rest ih => rw [batches, List.flatten_cons, ih, List.cons_append, List.take_append_drop]

theorem length_le_of_mem_batches {α : Type} {n : Nat} {l batch : List α}
    (hbatch : batch ∈ batches n l) : batch.length ≤ n + 1 := by
  induction l using batches.induct n with
  | case1 =>
    rw [batches] at hbatch
    cases hbatch
  | case2 a rest ih =>
    rw [batches] at hbatch
    rcases List.mem_cons.mp hbatch with rfl | hrest
    · exact Nat.succ_le_succ (List.length_take_le n rest)
    · exact ih hrest

theorem length_putRow {α : Type} (row : List α) (lists : List (List α)) :
    (putRow row lists).length = lists.length := by
  induction row generalizing lists with
  | nil => rw [putRow.eq_def]
  | cons a row ih =>
    cases lists with
    | nil => rfl
    | cons l lists => exact congrArg (· + 1) (ih lists)

/-- No item of a row that is short enough gets lost. -/
theorem putRow_perm {α : Type} {row : List α} {lists : List (List α)}
    (hlength : row.length ≤ lists.length) :
    (putRow row lists).flatten.Perm (row ++ lists.flatten) := by
  induction row generalizing lists with
  | nil => rw [putRow.eq_def, List.nil_append]
  | cons a row ih =>
    cases lists with
    | nil => exact absurd hlength (Nat.not_succ_le_zero _)
    | cons l lists =>
      have hrest := (ih (Nat.le_of_succ_le_succ hlength)).append_left l
      have hswap : (l ++ (row ++ lists.flatten)).Perm (row ++ (l ++ lists.flatten)) := by
        rw [← List.append_assoc, ← List.append_assoc]
        exact List.perm_append_comm.append_right _
      exact (hrest.trans hswap).cons a

/-- Each request of a batch is dealt to one worker. -/
theorem deal_perm {α : Type} {workers : Nat} (hworkers : 0 < workers) (batch : List α) :
    (deal workers batch).flatten.Perm batch := by
  have hrows : ∀ rows : List (List α), (∀ row ∈ rows, row.length ≤ workers) →
      (rows.foldr putRow (List.replicate workers [])).length = workers ∧
        (rows.foldr putRow (List.replicate workers [])).flatten.Perm rows.flatten := by
    intro rows
    induction rows with
    | nil =>
      intro _
      constructor
      · exact List.length_replicate
      · rw [List.foldr_nil, List.flatten_replicate_nil]
        exact List.Perm.refl _
    | cons row rows ih =>
      intro hshort
      rcases List.forall_mem_cons.mp hshort with ⟨hrow, hrest⟩
      rcases ih hrest with ⟨hlength, hperm⟩
      constructor
      · exact (length_putRow row _).trans hlength
      · exact (putRow_perm (Nat.le_trans hrow (Nat.le_of_eq hlength.symm))).trans (hperm.append_left row)
  have hshort : ∀ row ∈ batches (workers - 1) batch, row.length ≤ workers := by
    intro row hrow
    have hlength := length_le_of_mem_batches hrow
    omega
  have hperm := (hrows _ hshort).2
  rwa [flatten_batches] at hperm

/-! ## One worker -/

/-- What a tally has counted. -/
def Tally.load (t : Tally) : Load := .done t.counts

/-- What a worker has counted and what is ahead of it. -/
def Worker.load (w : Worker) : Load := ⟨w.tally.counts, w.queue, w.pending.toList⟩

section

variable {m : Type → Type} {ps : PostShape} [Monad m] [WPMonad m ps] {meter : Meter m}

/-- An insertion is made for a request that was pending. -/
theorem Tally.fill_progress (hmeter : meter.Faithful) (t : Tally) (request : Request)
    (s : Subject) :
    ⦃⌜True⌝⦄ t.fill meter request s
    ⦃⇓ (t', s') => ⌜∀ queued, Progress (⟨t.counts, queued, {request}⟩, s)
      (⟨t'.counts, queued, 0⟩, s')⌝⦄ := by
  have hfill := fill_spec hmeter
  mvcgen [hfill]
  mframe
  rename_i r hfilled
  rcases hfilled with ⟨displaced, hput, hcounts⟩
  mpure_intro
  intro queued
  have hinsertion : Progress (⟨t.counts, queued, {request} + 0⟩, s)
      (⟨t.counts.noteInsertion displaced, queued, 0⟩, r.2) := .insertion hput.symm
  rw [← hcounts, add_zero] at hinsertion
  exact hinsertion

namespace Worker

/-- A call of a worker moves one of its requests, if there is one. -/
theorem step_spec (hmeter : meter.Faithful) (w : Worker) (s : Subject) :
    ⦃⌜True⌝⦄ w.step meter s ⦃⇓ (w', s') => ⌜Progress (w.load, s) (w'.load, s')⌝⦄ := by
  have hlookUp := Tally.lookUp_spec hmeter
  have hfill := Tally.fill_progress hmeter
  rcases w with ⟨_ | request, queue, tally⟩
  · cases queue with
    | nil =>
      mvcgen [step]
      mpure_intro
      exact .refl _
    | cons request queue =>
      mvcgen [step, hlookUp]
      rename_i r hlookedUp
      rcases r with ⟨hit, tally', s'⟩
      rcases hlookedUp with ⟨hget, hcounts⟩
      mpure_intro
      have hlookup : Progress (⟨tally.counts, {request} + ↑queue, 0⟩, s)
          (⟨tally.counts.noteLookup hit, queue, 0 + if hit then 0 else {request}⟩, s') :=
        .lookup hget.symm
      rw [← hcounts] at hlookup
      cases hit with
      | true => exact hlookup
      | false => exact hlookup
  · mvcgen [step, hfill]
    rename_i r hfilled
    mpure_intro
    exact hfilled queue

/-- A worker that finishes has nothing ahead of it. -/
theorem finish_spec (hmeter : meter.Faithful) (w : Worker) (s : Subject) :
    ⦃⌜True⌝⦄ w.finish meter s ⦃⇓ (t, s') => ⌜Progress (w.load, s) (t.load, s')⌝⦄ := by
  have hfill := Tally.fill_progress hmeter
  have hreplayAll := Tally.replayAll_spec hmeter
  rcases w with ⟨_ | request, queue, tally⟩
  · mvcgen [finish, hreplayAll]
    mframe
    rename_i r hfold
    mpure_intro
    have hserve := Progress.serveAll queue tally.counts s
    rw [← hfold] at hserve
    exact hserve
  · mvcgen [finish, hfill, hreplayAll]
    mframe
    rename_i r hfilled r' hfold
    mpure_intro
    have hserve := Progress.serveAll queue r.1.counts r.2
    rw [← hfold] at hserve
    exact (hfilled queue).trans hserve

end Worker

/-! ## Several workers -/

/-- The load of a worker among others, whose load does not depend on it. -/
theorem load_set {workers : List Worker} {i : Nat} {w : Worker} (hw : workers[i]? = some w) :
    ∃ others, (workers.map Worker.load).sum = w.load + others ∧
      ∀ w', ((workers.set i w').map Worker.load).sum = w'.load + others := by
  induction workers generalizing i with
  | nil => cases hw
  | cons first workers ih =>
    cases i with
    | zero =>
      obtain rfl : first = w := Option.some.inj hw
      refine ⟨(workers.map Worker.load).sum, List.sum_cons, ?_⟩
      intro w'
      exact List.sum_cons
    | succ i =>
      rcases ih hw with ⟨others, hsum, hset⟩
      refine ⟨first.load + others, ?_, ?_⟩
      · rw [List.map_cons, List.sum_cons, hsum, add_left_comm]
      · intro w'
        rw [List.set_cons_succ, List.map_cons, List.sum_cons, hset, add_left_comm]

/-- Account is kept of all requests, whoever is given the turns. -/
theorem takeTurns_spec (hmeter : meter.Faithful) (turns : List Nat) (workers : List Worker)
    (s : Subject) :
    ⦃⌜True⌝⦄ takeTurns meter turns workers s
    ⦃⇓ (workers', s') => ⌜Progress ((workers.map Worker.load).sum, s)
      ((workers'.map Worker.load).sum, s')⌝⦄ := by
  have hstep := Worker.step_spec hmeter
  induction turns generalizing workers s with
  | nil =>
    mvcgen [takeTurns]
    mpure_intro
    exact .refl _
  | cons i turns ih =>
    cases hw : workers[i]? with
    | none =>
      mvcgen [takeTurns, hw, ih]
    | some w =>
      -- only the load of worker `i` changes by its call
      rcases load_set hw with ⟨others, hsum, hset⟩
      mvcgen [takeTurns, hstep, hw, ih]
      mframe
      rename_i r hcall r' hturns
      mpure_intro
      have hframe := hcall.frame others
      rw [← hsum, ← hset] at hframe
      exact hframe.trans hturns

theorem finishAll_spec (hmeter : meter.Faithful) (workers : List Worker) (s : Subject) :
    ⦃⌜True⌝⦄ finishAll meter workers s
    ⦃⇓ (tallies, s') => ⌜Progress ((workers.map Worker.load).sum, s)
      ((tallies.map Tally.load).sum, s')⌝⦄ := by
  have hfinish := Worker.finish_spec hmeter
  induction workers generalizing s with
  | nil =>
    mvcgen [finishAll]
    mpure_intro
    exact .refl _
  | cons w workers ih =>
    mvcgen [finishAll, hfinish, ih]
    rename_i r hfirst r' hrest
    mpure_intro
    rw [List.map_cons, List.sum_cons, List.map_cons, List.sum_cons]
    exact hfirst.beside hrest

/-- Workers with the given requests take the given turns and then finish. -/
def replayScripts (meter : Meter m) (turns : List Nat) (scripts : List (List Request))
    (s : Subject) : m (List Tally × Subject) := do
  let (unfinished, s) ← takeTurns meter turns (scripts.map ({ queue := · })) s
  finishAll meter unfinished s

/-- At first a worker has counted nothing and all its requests are waiting. -/
theorem load_scripts (scripts : List (List Request)) :
    ((scripts.map ({ queue := · })).map Worker.load).sum = .waiting scripts.flatten := by
  induction scripts with
  | nil => rfl
  | cons script scripts ih =>
    rw [List.map_cons, List.map_cons, List.sum_cons, ih, List.flatten_cons, ← Multiset.coe_add,
      Load.waiting_add]
    rfl

/-- In the end all workers have done is to count. -/
theorem load_tallies (tallies : List Tally) :
    (tallies.map Tally.load).sum = .done (tallies.map Tally.counts).sum := by
  induction tallies with
  | nil => rfl
  | cons t tallies ih =>
    rw [List.map_cons, List.sum_cons, ih, List.map_cons, List.sum_cons, Load.done_add]
    rfl

theorem replayScripts_spec (hmeter : meter.Faithful) (turns : List Nat)
    (scripts : List (List Request)) (s : Subject) :
    ⦃⌜True⌝⦄ replayScripts meter turns scripts s
    ⦃⇓ (tallies, s') => ⌜Progress (.waiting scripts.flatten, s)
      (.done (tallies.map Tally.counts).sum, s')⌝⦄ := by
  have htakeTurns := takeTurns_spec hmeter
  have hfinishAll := finishAll_spec hmeter
  mvcgen [replayScripts, htakeTurns, hfinishAll]
  mframe
  rename_i r hturns r' hfinish
  mpure_intro
  rw [load_scripts] at hturns
  rw [load_tallies] at hfinish
  exact hturns.trans hfinish

/-! ## Batch by batch -/

/-- The requests of a batch are dealt, and the workers take turns at them. -/
theorem replayBatch_eq (meter : Meter m) (workers : Nat) (batch : List Request) (s : Subject) :
    replayBatch meter workers batch s =
      (meter.turns workers batch.length >>= fun turns =>
        replayScripts meter turns (deal workers batch) s) := rfl

theorem replayBatch_spec (hmeter : meter.Faithful) {workers : Nat} (hworkers : 0 < workers)
    (batch : List Request) (s : Subject) :
    ⦃⌜True⌝⦄ replayBatch meter workers batch s
    ⦃⇓ (tallies, s') => ⌜Progress (.waiting batch, s)
      (.done (tallies.map Tally.counts).sum, s')⌝⦄ := by
  have hturns := hmeter.turns
  have hreplay := replayScripts_spec hmeter
  have hdeal : ((deal workers batch).flatten : Multiset Request) = batch :=
    Multiset.coe_eq_coe.mpr (deal_perm hworkers batch)
  rw [replayBatch_eq]
  mvcgen [hturns, hreplay]
  mframe
  rename_i r hprogress
  mpure_intro
  rw [hdeal] at hprogress
  exact hprogress

theorem Tally.counts_merge (t other : Tally) (draws : Nat → Nat) :
    (t.merge other draws).counts = t.counts + other.counts := rfl

theorem mergeAll_spec (hmeter : meter.Faithful) (t : Tally) (tallies : List Tally) :
    ⦃⌜True⌝⦄ mergeAll meter t tallies
    ⦃⇓ t' => ⌜t'.counts = t.counts + (tallies.map Tally.counts).sum⌝⦄ := by
  have hdraws := hmeter.draws
  mvcgen [mergeAll] invariants
  · ⇓ r => ⌜r.2.counts = t.counts + (List.map Tally.counts <| List.Cursor.prefix r.1).sum⌝
  case vc1.step done other rest _ t' =>
    mspec hdraws
    rename_i hdone draws
    mspec
    mpure_intro
    rw [Tally.counts_merge, hdone, List.map_append, List.sum_append, ← add_assoc]
    rfl
  all_goals simp

/-- One more batch is served. -/
theorem addBatch_spec (hmeter : meter.Faithful) {workers : Nat} (hworkers : 0 < workers)
    (state : Tally × Subject) (batch : List Request) :
    ⦃⌜True⌝⦄ addBatch meter workers state batch
    ⦃⇓ (t, s') => ⌜∃ n, t.counts = state.1.counts + n ∧
      Progress (.waiting batch, state.2) (.done n, s')⌝⦄ := by
  have hreplay := replayBatch_spec hmeter hworkers
  have hmerge := mergeAll_spec hmeter
  mvcgen [addBatch, hreplay, hmerge]
  rename_i r hprogress t hcounts
  mpure_intro
  exact ⟨_, hcounts, hprogress⟩

/-- There are requests to serve, but a list of the workers takes too many bytes. -/
def TooMany (workers : Nat) (requests : List Request) : Prop :=
  requests ≠ [] ∧ memoryLimit < max workers 1 * Worker.bytes

theorem not_tooMany {workers : Nat} {requests : List Request}
    (hworkers : requests ≠ [] → workers * Worker.bytes ≤ memoryLimit) :
    ¬ TooMany workers requests := by
  rintro ⟨hrequests, htoo⟩
  have hfits := hworkers hrequests
  rw [Worker.bytes, memoryLimit] at hfits htoo
  omega

theorem enlist_of_le {workers : Nat} (hfits : workers * Worker.bytes ≤ memoryLimit) :
    (enlist workers : ExceptT Overflow m Nat) = pure (workers * Worker.bytes) := by
  rw [enlist, listBytes, if_pos hfits]
  rfl

theorem enlist_of_lt {workers : Nat} (htoo : memoryLimit < workers * Worker.bytes) :
    (enlist workers : ExceptT Overflow m Nat) = throw .allocation := by
  rw [enlist, listBytes, if_neg (Nat.not_le.mpr htoo)]
  rfl

theorem enlist_spec (workers : Nat) :
    ⦃⌜True⌝⦄ (enlist workers : ExceptT Overflow m Nat)
    ⦃(fun bytes => ⌜bytes = workers * Worker.bytes⌝,
      fun error => ⌜error = .allocation ∧ memoryLimit < workers * Worker.bytes⌝,
      ExceptConds.false)⦄ := by
  rcases Nat.lt_or_ge memoryLimit (workers * Worker.bytes) with htoo | hfits
  · rw [enlist_of_lt htoo]
    mvcgen
  · rw [enlist_of_le hfits]
    mvcgen

/-- Too many workers are found out with the first batch. -/
theorem replayConcurrent_of_tooMany [LawfulMonad m] {workers : Nat} {requests : List Request}
    (htoo : TooMany workers requests) (s : Subject) :
    replayConcurrent meter workers requests s = throw .allocation := by
  rcases htoo with ⟨hrequests, hmany⟩
  cases requests with
  | nil => exact absurd rfl hrequests
  | cons request requests =>
    rw [replayConcurrent, batches, List.foldlM_cons, enlist_of_lt hmany]
    apply ExceptT.ext
    simp only [ExceptT.run_bind, ExceptT.run_throw, pure_bind]

/-- What holds at first and is kept with each batch holds in the end, and there is an end unless
the workers are too many. -/
theorem replayConcurrent_induct {I : List Request → Tally × Subject → Prop} {workers : Nat}
    {s : Subject} (hempty : I [] (.empty, s))
    (hbatch : ∀ past batch state, I past state →
      ⦃⌜True⌝⦄ addBatch meter (max workers 1) state batch ⦃⇓ r => ⌜I (past ++ batch) r⌝⦄)
    (requests : List Request) :
    ⦃⌜True⌝⦄ replayConcurrent meter workers requests s
    ⦃(fun r => ⌜I requests r⌝, fun error => ⌜error = .allocation ∧ TooMany workers requests⌝,
      ExceptConds.false)⦄ := by
  have henlist := @enlist_spec m ps _ _ (max workers 1)
  mvcgen [replayConcurrent] invariants
  · (fun r => ⌜I (List.flatten <| List.Cursor.prefix r.1) r.2⌝,
      fun error => ⌜error = .allocation ∧ TooMany workers requests⌝, ExceptConds.false)
  case vc1.step done batch rest hsplit state =>
    mspec henlist
    · mframe
      rename_i hdone _ _
      mspec
      mspec hbatch done.flatten batch state hdone
      rw [List.flatten_append, List.flatten_singleton]
    · -- there is a batch, so there are requests
      mframe
      rename_i herror
      mpure_intro
      refine ⟨herror.1, ?_, herror.2⟩
      rintro rfl
      rw [batches] at hsplit
      exact List.append_ne_nil_of_right_ne_nil done (List.cons_ne_nil batch rest) hsplit.symm
  case vc3.post.success r => rw [flatten_batches]

/-- All requests are waiting at first, and none of them is waiting or pending in the end. -/
theorem replayConcurrent_spec (hmeter : meter.Faithful) (workers : Nat) (requests : List Request)
    (s : Subject) :
    ⦃⌜True⌝⦄ replayConcurrent meter workers requests s
    ⦃(fun r => ⌜Progress (.waiting requests, s) (.done r.1.counts, r.2)⌝,
      fun error => ⌜error = .allocation ∧ TooMany workers requests⌝, ExceptConds.false)⦄ := by
  have hworkers : 0 < max workers 1 := by omega
  refine replayConcurrent_induct
    (I := fun past r => Progress (.waiting past, s) (.done r.1.counts, r.2)) (.refl _) ?_ requests
  intro past batch state hpast
  have hbatch := addBatch_spec hmeter hworkers state batch
  mvcgen [hbatch]
  mframe
  rename_i r hserved
  rcases hserved with ⟨n, hcounts, hprogress⟩
  mpure_intro
  rw [← Multiset.coe_add, Load.waiting_add, hcounts, Load.done_add]
  exact hpast.beside hprogress

/-- Unless the workers are too many, all requests are served. -/
theorem replayConcurrent_progress (hmeter : meter.Faithful) {workers : Nat}
    {requests : List Request} (hworkers : requests ≠ [] → workers * Worker.bytes ≤ memoryLimit)
    (s : Subject) :
    ⦃⌜True⌝⦄ replayConcurrent meter workers requests s
    ⦃⇓ r => ⌜Progress (.waiting requests, s) (.done r.1.counts, r.2)⌝⦄ :=
  ends_of_never (replayConcurrent_spec hmeter workers requests s) fun _ herror =>
    not_tooMany hworkers herror.2

end

end CacheLab
