import CacheLab.Proofs.Simulation.ConcurrentReplay

/-!
# CacheLab.Proofs.Simulation.OneWorker — one worker replays in sequence

A worker that has the cache for itself may be given turns or left to finish: either way it
serves its requests one by one. So a concurrent replay by one worker differs from a
replay in sequence only in that it starts a new tally for each batch and adds them up.

* `Worker.outlook` is what a worker ends with if it is left alone. Its calls do not
  change that (`Worker.step_outlook`), hence neither do its turns (`takeTurns_outlook`).
* `Subject.foldl_serve_shared`: a trace comes to the same end behind the lock.
* `Subject.foldl_serve_add`: what was counted before is added to what is counted, so that
  a tally may start at nothing and be merged later.
* `replayConcurrent_alone`: by induction on the batches, the counts and the cache are those
  of the fold over the whole trace.
-/

namespace CacheLab

open Std.Do

set_option mvcgen.warning false

/-! ## A cache behind its lock -/

namespace Subject

/-- To serve a request behind the lock is to serve it. -/
theorem serve_shared (n : Counts) (c : Cache String Nat) (request : Request) :
    ∃ n' c', serve (n, cache c) request = (n', cache c') ∧
      serve (n, shared ⟨c⟩) request = (n', shared ⟨c'⟩) := by
  rcases hfound : c.get request.key with ⟨value, c₁⟩
  have hget : (cache c).get request.key = (value.isSome, cache c₁) := by
    rw [get, hfound]
  have hget' : (shared ⟨c⟩).get request.key = (value.isSome, shared ⟨c₁⟩) := by
    rw [get, Shared.get, hfound]
  cases hhit : value.isSome with
  | true =>
    rw [hhit] at hget hget'
    exact ⟨_, c₁, serve_of_hit hget, serve_of_hit hget'⟩
  | false =>
    rw [hhit] at hget hget'
    rcases hentry : c₁.put request.key request.stored with ⟨entry, c₂⟩
    have hput : (cache c₁).put request.key request.stored = (entry.isSome, cache c₂) := by
      rw [put, hentry]
    have hput' : (shared ⟨c₁⟩).put request.key request.stored = (entry.isSome, shared ⟨c₂⟩) := by
      rw [put, Shared.put, hentry]
    exact ⟨_, c₂, serve_of_miss hget hput, serve_of_miss hget' hput'⟩

/-- So a trace comes to the same end behind the lock. -/
theorem foldl_serve_shared (n : Counts) (c : Cache String Nat) (requests : List Request) :
    ∃ n' c', requests.foldl serve (n, cache c) = (n', cache c') ∧
      requests.foldl serve (n, shared ⟨c⟩) = (n', shared ⟨c'⟩) := by
  induction requests generalizing n c with
  | nil => exact ⟨n, c, rfl, rfl⟩
  | cons request requests ih =>
    rcases serve_shared n c request with ⟨n₁, c₁, hserve, hserve'⟩
    rw [List.foldl_cons, List.foldl_cons, hserve, hserve']
    exact ih n₁ c₁

end Subject

/-! ## Counts that were there before -/

namespace Subject

variable (n k : Counts) (s : Subject)

theorem serve_add (request : Request) :
    serve (n + k, s) request = (n + (serve (k, s) request).1, (serve (k, s) request).2) := by
  rcases hget : s.get request.key with ⟨hit, s'⟩
  cases hit with
  | true =>
    rw [serve_of_hit hget, serve_of_hit hget, Counts.noteLookup_eq, Counts.noteLookup_eq k,
      add_assoc]
  | false =>
    rcases hput : s'.put request.key request.stored with ⟨displaced, s''⟩
    rw [serve_of_miss hget hput, serve_of_miss hget hput, Counts.noteInsertion_eq,
      Counts.noteInsertion_eq (k.noteLookup false), Counts.noteLookup_eq, Counts.noteLookup_eq k,
      add_assoc, add_assoc, add_assoc]

/-- What was counted before is added to what is counted. -/
theorem foldl_serve_add (requests : List Request) :
    requests.foldl serve (n + k, s) =
      (n + (requests.foldl serve (k, s)).1, (requests.foldl serve (k, s)).2) := by
  induction requests generalizing k s with
  | nil => rfl
  | cons request requests ih =>
    rw [List.foldl_cons, serve_add, ih, List.foldl_cons]

end Subject

/-! ## A worker on its own -/

/-- What a worker ends with if it is left alone. -/
def Worker.outlook (w : Worker) (s : Subject) : Counts × Subject :=
  match w.pending with
  | none => w.queue.foldl Subject.serve (w.tally.counts, s)
  | some request =>
    let (displaced, s) := s.put request.key request.stored
    w.queue.foldl Subject.serve (w.tally.counts.noteInsertion displaced, s)

namespace Worker

variable {queue : List Request} {tally : Tally} {s s' s'' : Subject} {request : Request}

theorem outlook_of_hit (hget : s.get request.key = (true, s')) :
    outlook { queue := request :: queue, tally } s =
      queue.foldl Subject.serve (tally.counts.noteLookup true, s') := by
  rw [outlook, List.foldl_cons, Subject.serve_of_hit hget]

theorem outlook_pending {displaced : Bool}
    (hput : s.put request.key request.stored = (displaced, s')) :
    outlook { pending := some request, queue, tally } s =
      queue.foldl Subject.serve (tally.counts.noteInsertion displaced, s') := by
  dsimp only [outlook]
  rw [hput]

/-- After a miss the insertion is still to come, and it is what is pending. -/
theorem outlook_of_miss {tally' : Tally} (hget : s.get request.key = (false, s'))
    (hcounts : tally'.counts = tally.counts.noteLookup false) :
    outlook { queue := request :: queue, tally } s =
      outlook { pending := some request, queue, tally := tally' } s' := by
  rcases hput : s'.put request.key request.stored with ⟨displaced, s''⟩
  rw [outlook_pending hput, hcounts, outlook, List.foldl_cons, Subject.serve_of_miss hget hput]

end Worker

/-- One worker gets all requests of a batch. -/
theorem deal_one {α : Type} (batch : List α) : deal 1 batch = [batch] := by
  show (batches 0 batch).foldr putRow [[]] = [batch]
  induction batch with
  | nil => rw [batches, List.foldr_nil]
  | cons a rest ih =>
    rw [batches, List.take_zero, List.drop_zero, List.foldr_cons, ih]
    rfl

section

variable {m : Type → Type} {ps : PostShape} [Monad m] [WPMonad m ps] {meter : Meter m}

namespace Worker

/-- A call of a worker is the next thing that it would do if left alone. -/
theorem step_outlook (hmeter : meter.Faithful) (w : Worker) (s : Subject) :
    ⦃⌜True⌝⦄ w.step meter s ⦃⇓ (w', s') => ⌜w'.outlook s' = w.outlook s⌝⦄ := by
  have hlookUp := Tally.lookUp_spec hmeter
  have hfill := Tally.fill_spec hmeter
  rcases w with ⟨_ | request, queue, tally⟩
  · cases queue with
    | nil => mvcgen [step]
    | cons request queue =>
      mvcgen [step, hlookUp]
      rename_i r hlookedUp
      rcases r with ⟨hit, tally', s'⟩
      rcases hlookedUp with ⟨hget, hcounts⟩
      mpure_intro
      cases hit with
      | true =>
        rw [outlook_of_hit hget.symm, ← hcounts]
        rfl
      | false => exact (outlook_of_miss hget.symm hcounts).symm
  · mvcgen [step, hfill]
    rename_i r hfilled
    rcases hfilled with ⟨displaced, hput, hcounts⟩
    mpure_intro
    rw [outlook_pending hput.symm, ← hcounts]
    rfl

/-- A worker that finishes ends as it would if left alone. -/
theorem finish_outlook (hmeter : meter.Faithful) (w : Worker) (s : Subject) :
    ⦃⌜True⌝⦄ w.finish meter s ⦃⇓ (t, s') => ⌜(t.counts, s') = w.outlook s⌝⦄ := by
  have hfill := Tally.fill_spec hmeter
  have hreplayAll := Tally.replayAll_spec hmeter
  rcases w with ⟨_ | request, queue, tally⟩
  · mvcgen [finish, hreplayAll]
  · mvcgen [finish, hfill, hreplayAll]
    mframe
    rename_i r hfilled r' hfold
    rcases hfilled with ⟨displaced, hput, hcounts⟩
    mpure_intro
    rw [outlook_pending hput.symm, ← hcounts]
    exact hfold

end Worker

/-- Turns do not change what a worker that has no others beside it ends with. -/
theorem takeTurns_outlook (hmeter : meter.Faithful) (turns : List Nat) (w : Worker)
    (s : Subject) :
    ⦃⌜True⌝⦄ takeTurns meter turns [w] s
    ⦃⇓ (workers, s') => ⌜∃ w', workers = [w'] ∧ w'.outlook s' = w.outlook s⌝⦄ := by
  have hstep := Worker.step_outlook hmeter
  induction turns generalizing w s with
  | nil =>
    mvcgen [takeTurns]
    mpure_intro
    exact ⟨w, rfl, rfl⟩
  | cons i turns ih =>
    cases i with
    | succ i =>
      -- a turn of a worker that is not there
      have hnone : [w][i + 1]? = none := rfl
      mvcgen [takeTurns, hnone, ih]
    | zero =>
      have hw : [w][0]? = some w := rfl
      have hset : ∀ w' : Worker, [w].set 0 w' = [w'] := fun w' => rfl
      mvcgen [takeTurns, hstep, hw, hset, ih]
      mframe
      rename_i r hcall r' hturns
      rcases hturns with ⟨w', hworkers, houtlook⟩
      mpure_intro
      exact ⟨w', hworkers, houtlook.trans hcall⟩

theorem finishAll_outlook (hmeter : meter.Faithful) (w : Worker) (s : Subject) :
    ⦃⌜True⌝⦄ finishAll meter [w] s
    ⦃⇓ (tallies, s') => ⌜∃ t, tallies = [t] ∧ (t.counts, s') = w.outlook s⌝⦄ := by
  have hfinish := Worker.finish_outlook hmeter
  mvcgen [finishAll, hfinish]
  rename_i r hfold
  mpure_intro
  exact ⟨r.1, rfl, hfold⟩

/-- One worker replays a batch in sequence, with a tally of its own. -/
theorem replayBatch_alone (hmeter : meter.Faithful) (batch : List Request) (s : Subject) :
    ⦃⌜True⌝⦄ replayBatch meter 1 batch s
    ⦃⇓ (tallies, s') => ⌜∃ t, tallies = [t] ∧
      (t.counts, s') = batch.foldl Subject.serve (0, s)⌝⦄ := by
  have hturns := hmeter.turns
  have htakeTurns := takeTurns_outlook hmeter
  have hfinishAll := finishAll_outlook hmeter
  rw [replayBatch, deal_one, List.map_singleton]
  mintro _
  mspec hturns
  rename_i turns
  mspec htakeTurns turns { queue := batch } s
  mframe
  rename_i r hturns
  rcases r with ⟨workers, s'⟩
  rcases hturns with ⟨w, rfl, houtlook⟩
  mspec hfinishAll w s'
  mframe
  rename_i r hfinish
  rcases hfinish with ⟨t, htallies, hfold⟩
  mpure_intro
  exact ⟨t, htallies, hfold.trans houtlook⟩

/-! ## Batch by batch -/

/-- The tally of a batch starts at nothing and is then added. -/
theorem addBatch_alone (hmeter : meter.Faithful) (state : Tally × Subject)
    (batch : List Request) :
    ⦃⌜True⌝⦄ addBatch meter 1 state batch
    ⦃⇓ (t, s') => ⌜(t.counts, s') = batch.foldl Subject.serve (state.1.counts, state.2)⌝⦄ := by
  have hreplay := replayBatch_alone hmeter
  have hmerge := mergeAll_spec hmeter
  mvcgen [addBatch, hreplay, hmerge]
  rename_i r hbatch t hcounts
  rcases hbatch with ⟨t', htallies, hbatch⟩
  mpure_intro
  rw [htallies, List.map_singleton, List.sum_singleton] at hcounts
  have hadd := Subject.foldl_serve_add state.1.counts 0 state.2 batch
  rw [add_zero] at hadd
  rw [hadd, ← hbatch, hcounts]

theorem replayConcurrent_fold (hmeter : meter.Faithful) {workers : Nat} (hworkers : workers ≤ 1)
    (requests : List Request) (s : Subject) :
    ⦃⌜True⌝⦄ replayConcurrent meter workers requests s
    ⦃⇓ (t, s') => ⌜(t.counts, s') = requests.foldl Subject.serve (0, s)⌝⦄ := by
  have hone : max workers 1 = 1 := Nat.max_eq_right hworkers
  have hfew : workers * Worker.bytes ≤ memoryLimit := by
    rw [Worker.bytes, memoryLimit]
    omega
  refine ends_of_never (replayConcurrent_induct
    (I := fun past r => (r.1.counts, r.2) = past.foldl Subject.serve (0, s)) rfl ?_ requests)
    fun _ herror => not_tooMany (fun _ => hfew) herror.2
  intro past batch state hpast
  have hbatch := addBatch_alone hmeter state batch
  rw [hone]
  mvcgen [hbatch]
  mframe
  rename_i r hserved
  mpure_intro
  rw [List.foldl_append, ← hpast]
  exact hserved

variable {m' : Type → Type} {ps' : PostShape} [Monad m'] [WPMonad m' ps'] {meter' : Meter m'}

/-- No worker, which counts as one, or one worker: however many batches the trace has and
whatever the turns, the replay comes to the same end as a replay in sequence. The numbers of
hits, misses, evictions, lookups and insertions are the same, and the cache behind the lock is
the same, hence also its entries and the order in which they would leave. -/
theorem replayConcurrent_alone (hmeter : meter.Faithful) (hmeter' : meter'.Faithful)
    {workers : Nat} (hworkers : workers ≤ 1) (config : Config) (requests : List Request) :
    ∃ (n : Counts) (c : Cache String Nat),
      ⦃⌜True⌝⦄ replaySequential meter requests (.cache (.new config))
      ⦃⇓ (t, s) => ⌜t.counts = n ∧ s = .cache c⌝⦄ ∧
      ⦃⌜True⌝⦄ replayConcurrent meter' workers requests (.shared ⟨.new config⟩)
      ⦃⇓ (t, s) => ⌜t.counts = n ∧ s = .shared ⟨c⟩⌝⦄ := by
  have hsequential := replaySequential_spec hmeter
  have hconcurrent := replayConcurrent_fold hmeter' hworkers
  rcases Subject.foldl_serve_shared 0 (.new config) requests with ⟨n, c, hcache, hshared⟩
  refine ⟨n, c, ?_, ?_⟩
  · mvcgen [hsequential]
    mframe
    rename_i r hfold
    mpure_intro
    exact Prod.mk.inj (hfold.trans hcache)
  · mvcgen [hconcurrent]
    mframe
    rename_i r hfold
    mpure_intro
    exact Prod.mk.inj (hfold.trans hshared)

/-- A cache for two entries under least-frequent eviction, where the third object displaces
the one requested once. The worker gets some turns, one of them in vain, and then finishes. -/
theorem replayConcurrent_alone_three_objects :
    let requests : List Request :=
      [⟨0, "a", 10, 0⟩, ⟨1, "b", 20, 0⟩, ⟨2, "a", 10, 0⟩, ⟨3, "c", 30, 0⟩]
    let config : Config := ⟨2, .lfu, Nat.two_pos⟩
    let meter : Meter Id := .inTurns [0, 0, 1, 0]
    let r := (replaySequential (Meter.still : Meter Id) requests (.cache (.new config))).run
    (Meter.still : Meter Id).Faithful ∧ meter.Faithful ∧ 1 ≤ 1 ∧
      ∃ r' c, (replayConcurrent meter 1 requests (.shared ⟨.new config⟩)).run = .ok r' ∧
        r'.1.counts = r.1.counts ∧ r.2 = .cache c ∧ r'.2 = .shared ⟨c⟩ := by
  intro requests config meter r
  have hmeter : meter.Faithful := .inTurns _
  rcases replayConcurrent_alone (.still : (Meter.still : Meter Id).Faithful) hmeter
    (le_refl 1) config requests with ⟨n, c, hsequential, hconcurrent⟩
  obtain ⟨hcounts, hs⟩ : r.1.counts = n ∧ r.2 = .cache c := hsequential trivial
  rcases result_of_ends hconcurrent with ⟨r', hrun, hcounts', hs'⟩
  exact ⟨.still, hmeter, le_refl 1, r', c, hrun, hcounts'.trans hcounts.symm, hs, hs'⟩

end

end CacheLab
