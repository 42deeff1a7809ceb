import CacheLab.Proofs.Cache.Levels

/-!
# CacheLab.Proofs.Cache.Alike — caches that no caller can tell apart

Two histories can leave the same entries in the same order of leaving and yet different slots,
different free lists and different hash tables. `Alike config v c c'` says that both caches show
the view `v` and have the same metrics, whatever is behind them.

* `Tracker.Consistent.spread_eq`: what the metrics copy from a tracker is told by its queue.
* `Shows.increments?_perform`: which calls are promotions is told by the queued counts.
* `Shows.drain_congr`: the order in which all entries would leave is told by the view.
* `Alike.perform` is the step lemma: a call has the same answer on both caches and leaves them
  alike. `Alike.run` is the same for a list of calls.
* `Alike.snapshot_eq`: so all that a caller can read off the two caches is the same
  (`Cache.Snapshot`), down to the order in which all entries would leave.
-/

namespace CacheLab

variable {κ ν : Type} [DecidableEq κ] [Hashable κ]

namespace Tracker.Consistent

variable {t t' : Tracker κ}

/-- The access counts are told by the policy and the queue. -/
theorem frequency?_congr (ht : t.Consistent) (ht' : t'.Consistent) (hpolicy : t.policy = t'.policy)
    (hqueue : t.queue = t'.queue) : t.frequency? = t'.frequency? := by
  funext key
  rw [ht.frequency?_eq, ht'.frequency?_eq, hpolicy, hqueue]

/-- So are their extremes and the number of distinct ones. -/
theorem spread_eq (ht : t.Consistent) (ht' : t'.Consistent) (hpolicy : t.policy = t'.policy)
    (hqueue : t.queue = t'.queue) :
    t.lowest? = t'.lowest? ∧ t.highest? = t'.highest? ∧ t.levels = t'.levels := by
  cases t with
  | lru t =>
    cases t' with
    | lru t' => exact ⟨rfl, rfl, rfl⟩
    | fifo t' => cases hpolicy
    | lfu t' => cases hpolicy
  | fifo t =>
    cases t' with
    | lru t' => cases hpolicy
    | fifo t' => exact ⟨rfl, rfl, rfl⟩
    | lfu t' => cases hpolicy
  | lfu t =>
    cases t' with
    | lru t' => cases hpolicy
    | fifo t' => cases hpolicy
    | lfu t' =>
      have hcounts : (t.queue.map (·.2)).Perm (t'.queue.map (·.2)) :=
        List.Perm.of_eq (congrArg (List.map (·.2)) hqueue)
      rcases Frequency.Consistent.spread ht (List.Perm.refl _) with ⟨hlowest, hhighest, hlevels⟩
      rcases Frequency.Consistent.spread ht' hcounts with ⟨hlowest', hhighest', hlevels'⟩
      refine ⟨hlowest.trans hlowest'.symm, hhighest.trans hhighest'.symm, ?_⟩
      exact hlevels.trans hlevels'.symm

end Tracker.Consistent

namespace View

/-- The number of promotions that an access to a present key counts: one if its count changes. -/
def promoted (policy : Policy) (v : View κ ν) (key : κ) : Nat :=
  if policy = .lfu ∧ (v.queue.access policy key).lookup key ≠ v.queue.lookup key then 1 else 0

/-- The number of promotions that a call counts. -/
def promotions (policy : Policy) (v : View κ ν) : Call κ ν → Nat
  | .get key | .modify key _ | .put key _ => if (v.value key).isSome then v.promoted policy key else 0
  | _ => 0

end View

namespace Cache

variable {c c' : Cache κ ν} {config : Config} {v : View κ ν} {key : κ}

/-! ## Promotions -/

/-- The number of promotions that an access to a present key counts. -/
def promoted (c : Cache κ ν) (key : κ) : Nat :=
  if c.policy.tracksAccess ∧ (c.tracker.access key).frequency? key ≠ c.tracker.frequency? key then
    1
  else
    0

theorem increments?_touch_eq (c : Cache κ ν) (key : κ) :
    (c.touch key).increments? = c.increments?.map (· + c.promoted key) := by
  unfold touch promoted
  by_cases htracks : c.policy.tracksAccess = true
  · rw [if_pos htracks, increments?_refreshLevels]
    simp only [htracks, true_and]
    show (c.metrics.levels.map _).map _ = (c.metrics.levels.map _).map _
    rw [Option.map_map, Option.map_map]
    congr 1
    funext levels
    by_cases hsame : (c.tracker.access key).frequency? key = c.tracker.frequency? key
    · simp [hsame]
    · simp [hsame, Levels.promote]
  · simp only [htracks]
    exact Option.map_id'.symm

/-- An access promotes a key if it changes the queued count. -/
theorem Shows.promoted_eq (hc : c.Shows config v) (key : κ) :
    c.promoted key = v.promoted config.policy key := by
  rcases hc.consistent.access key with ⟨hconsistent, hpolicy, hqueue⟩
  have hconfig : c.policy = config.policy := congrArg Config.policy hc.config_eq
  rw [promoted, View.promoted, hconsistent.frequency?_eq, hc.consistent.frequency?_eq, hpolicy,
    hqueue, hc.policy_eq, hc.queue_eq, hconfig]
  by_cases hlfu : config.policy = .lfu
  · simp [hlfu, Policy.tracksAccess]
  · simp [hlfu]

/-- The promotions after a call are those before it with the promotions of the call. -/
theorem Shows.increments?_perform (hc : c.Shows config v) (call : Call κ ν) :
    (c.perform call).2.increments? = c.increments?.map (· + v.promotions config.policy call) := by
  have hsame : c.increments? = c.increments?.map (· + 0) := Option.map_id'.symm
  have htouch : ∀ key (store : Store κ ν), ({ c with store }.touch key).increments? =
      c.increments?.map (· + v.promoted config.policy key) := by
    intro key store
    rw [← hc.promoted_eq]
    exact increments?_touch_eq { c with store } key
  cases call with
  | put key value =>
    show (c.put key value).2.increments? = _
    rw [View.promotions, ← hc.value_eq]
    cases hpeek : c.peek? key with
    | none => exact (increments?_put_of_none hpeek value).trans hsame
    | some old =>
      rw [Cache.put, hpeek]
      exact htouch key _
  | get key =>
    show (c.get key).2.increments? = _
    rw [View.promotions, ← hc.value_eq, Cache.get]
    cases c.peek? key with
    | none => exact hsame
    | some value => exact htouch key c.store
  | modify key f =>
    show (c.modify key f).2.increments? = _
    rw [View.promotions, ← hc.value_eq, Cache.modify]
    cases c.peek? key with
    | none => exact hsame
    | some value => exact htouch key c.store
  | remove key => exact (c.increments?_remove key).trans hsame
  | erase key => exact (c.increments?_remove key).trans hsame
  | pop =>
    show (refreshLevels (c.evict).2).increments? = _
    rw [increments?_refreshLevels, increments?_evict]
    exact hsame
  | clear => exact (increments?_refreshLevels _).trans hsame
  | contains key => exact hsame
  | peek key => exact hsame
  | victim => exact hsame
  | frequency key => exact hsame

/-! ## The policy of the metrics -/

theorem metrics_policy_touch (c : Cache κ ν) (key : κ) :
    (c.touch key).metrics.policy = c.metrics.policy := by
  unfold touch
  split <;> rfl

theorem metrics_policy_evict (c : Cache κ ν) : (c.evict).2.metrics.policy = c.metrics.policy := by
  unfold evict
  rcases c.tracker.evict with ⟨_ | key, tracker⟩
  · rfl
  · -- the victim is taken out of the store
    rcases hremove : c.store.remove key with ⟨_ | value, store⟩ <;> simp only [hremove]
    rfl

theorem metrics_policy_remove (c : Cache κ ν) (key : κ) :
    (c.remove key).2.metrics.policy = c.metrics.policy := by
  unfold remove
  cases c.peek? key <;> rfl

/-- No call changes the policy that the metrics are about. -/
theorem metrics_policy_perform (c : Cache κ ν) (call : Call κ ν) :
    (c.perform call).2.metrics.policy = c.metrics.policy := by
  cases call with
  | put key value =>
    show (c.put key value).2.metrics.policy = c.metrics.policy
    unfold put
    cases c.peek? key with
    | some old => exact metrics_policy_touch { c with store := c.store.insert key value } key
    | none =>
      show (if c.capacity ≤ c.size then c.evict else (none, c)).2.metrics.policy = _
      split
      · exact c.metrics_policy_evict
      · rfl
  | get key =>
    show (c.get key).2.metrics.policy = c.metrics.policy
    unfold get
    cases c.peek? key with
    | none => rfl
    | some value => exact c.metrics_policy_touch key
  | modify key f =>
    show (c.modify key f).2.metrics.policy = c.metrics.policy
    unfold modify
    cases c.peek? key with
    | none => rfl
    | some value => exact c.metrics_policy_touch key
  | remove key => exact c.metrics_policy_remove key
  | erase key => exact c.metrics_policy_remove key
  | pop => exact c.metrics_policy_evict
  | clear => rfl
  | contains key => rfl
  | peek key => rfl
  | victim => rfl
  | frequency key => rfl

/-! ## Metrics of caches with the same view -/

/-- With fresh copies of the spread the metrics differ at most in the counters and promotions. -/
theorem Shows.metrics_eq (hc : c.Shows config v) (hc' : c'.Shows config v) (hfresh : c.Fresh)
    (hfresh' : c'.Fresh) (hpolicy : c.metrics.policy = c'.metrics.policy)
    (hcore : c.metrics.core = c'.metrics.core) (hincrements : c.increments? = c'.increments?) :
    c.metrics = c'.metrics := by
  rcases hc.consistent.spread_eq hc'.consistent (hc.policy_eq.trans hc'.policy_eq.symm)
    (hc.queue_eq.trans hc'.queue_eq.symm) with ⟨hlowest, hhighest, hlevels⟩
  have hcopies : c.metrics.levels = c'.metrics.levels := by
    have hsame : c.metrics.levels.map (·.increments) = c'.metrics.levels.map (·.increments) :=
      hincrements
    cases hl : c.metrics.levels with
    | none =>
      rw [hl] at hsame
      exact (Option.map_eq_none_iff.mp hsame.symm).symm
    | some l =>
      rw [hl, Option.map_some] at hsame
      rcases Option.map_eq_some_iff.mp hsame.symm with ⟨l', hl', hpromoted⟩
      rcases hfresh l hl with ⟨hlow, hhigh, hactive⟩
      rcases hfresh' l' hl' with ⟨hlow', hhigh', hactive'⟩
      rw [← hlowest, ← hlow] at hlow'
      rw [← hhighest, ← hhigh] at hhigh'
      rw [← hlevels, ← hactive] at hactive'
      rw [hl']
      cases l
      cases l'
      congr
      all_goals exact Eq.symm ‹_›
  calc c.metrics = ⟨c.metrics.policy, c.metrics.core, c.metrics.levels⟩ := rfl
    _ = ⟨c'.metrics.policy, c'.metrics.core, c'.metrics.levels⟩ := by
      rw [hpolicy, hcore, hcopies]
    _ = c'.metrics := rfl

/-! ## The order in which all entries leave -/

namespace Shows

variable {config' : Config}

theorem popUpTo_congr (hc : c.Shows config v) (hc' : c'.Shows config' v) (hv : v.Sound config)
    (hv' : v.Sound config') (n : Nat) : (drain.popUpTo n c).1 = (drain.popUpTo n c').1 := by
  induction n generalizing c c' v with
  | zero => rfl
  | succ n ih =>
    have hnext : (c.pop).2.Shows config (v.evict).2 := (hc.perform hv .pop).2
    have hnext' : (c'.pop).2.Shows config' (v.evict).2 := (hc'.perform hv' .pop).2
    have hentry : (c.pop).1 = (c'.pop).1 := (hc.evict hv).1.trans (hc'.evict hv').1.symm
    rw [drain.popUpTo, drain.popUpTo]
    rcases hpop : c.pop with ⟨entry, rest⟩
    rcases hpop' : c'.pop with ⟨entry', rest'⟩
    rw [hpop] at hnext
    rw [hpop'] at hnext'
    rw [hpop, hpop'] at hentry
    obtain rfl : entry = entry' := hentry
    cases entry with
    | none => rfl
    | some p => exact congrArg (p :: ·) (ih hnext hnext' hv.evict hv'.evict)

/-- All entries leave two caches with the same view in the same order, whatever their policies. -/
theorem drain_congr (hc : c.Shows config v) (hc' : c'.Shows config' v) (hv : v.Sound config)
    (hv' : v.Sound config') : (c.drain).1 = (c'.drain).1 := by
  rw [drain, drain, hc.size_eq hv, hc'.size_eq hv']
  exact hc.popUpTo_congr hc' hv hv' _

end Shows

/-! ## Caches alike -/

/-- Both caches show the view, and their metrics are the same. -/
structure Alike (config : Config) (v : View κ ν) (c c' : Cache κ ν) : Prop where
  shows : c.Shows config v
  shows' : c'.Shows config v
  sound : v.Sound config
  fresh : c.Fresh
  metrics_eq : c.metrics = c'.metrics

namespace Alike

theorem fresh' (h : Alike config v c c') : c'.Fresh := by
  intro levels hlevels
  rw [← h.metrics_eq] at hlevels
  rcases h.shows.consistent.spread_eq h.shows'.consistent
    (h.shows.policy_eq.trans h.shows'.policy_eq.symm)
    (h.shows.queue_eq.trans h.shows'.queue_eq.symm) with ⟨hlowest, hhighest, hcount⟩
  rw [← hlowest, ← hhighest, ← hcount]
  exact h.fresh levels hlevels

theorem peek?_eq (h : Alike config v c c') : c.peek? = c'.peek? := by
  funext key
  rw [h.shows.value_eq, h.shows'.value_eq]

theorem size_eq (h : Alike config v c c') : c.size = c'.size := by
  rw [h.shows.size_eq h.sound, h.shows'.size_eq h.sound]

theorem victim?_eq (h : Alike config v c c') : c.victim? = c'.victim? := by
  rw [h.shows.victim?_eq, h.shows'.victim?_eq]

theorem frequency?_eq (h : Alike config v c c') : c.frequency? = c'.frequency? := by
  funext key
  rw [h.shows.frequency?_eq, h.shows'.frequency?_eq]

/-- A call counts the same on both caches. -/
theorem events_eq (h : Alike config v c c') (call : Call κ ν) : c.events call = c'.events call := by
  cases call with
  | put key value =>
    rw [events, events, h.peek?_eq, (h.shows.put h.sound key value).1,
      (h.shows'.put h.sound key value).1]
  | get key => rw [events, events, h.peek?_eq]
  | modify key f => rw [events, events, h.peek?_eq]
  | remove key => rw [events, events, h.peek?_eq]
  | erase key => rw [events, events, h.peek?_eq]
  | pop => rw [events, events, (h.shows.evict h.sound).1, (h.shows'.evict h.sound).1]
  | clear => rfl
  | contains key => rfl
  | peek key => rfl
  | victim => rfl
  | frequency key => rfl

/-- A call has the same answer on both caches and leaves them alike. -/
theorem perform (h : Alike config v c c') (call : Call κ ν) :
    (c.perform call).1 = (c'.perform call).1 ∧
      Alike config (v.perform config call).2 (c.perform call).2 (c'.perform call).2 := by
  rcases h.shows.perform h.sound call with ⟨hanswer, hshows⟩
  rcases h.shows'.perform h.sound call with ⟨hanswer', hshows'⟩
  have hfresh := perform_fresh h.fresh call
  have hpolicy : (c.perform call).2.metrics.policy = (c'.perform call).2.metrics.policy := by
    rw [metrics_policy_perform, metrics_policy_perform, h.metrics_eq]
  have hcore : (c.perform call).2.metrics.core = (c'.perform call).2.metrics.core := by
    rw [core_perform, core_perform, h.metrics_eq, h.events_eq]
  have hincrements : (c.perform call).2.increments? = (c'.perform call).2.increments? := by
    rw [h.shows.increments?_perform, h.shows'.increments?_perform, increments?, increments?,
      h.metrics_eq]
  refine ⟨hanswer.trans hanswer'.symm, hshows, hshows', h.sound.perform call, hfresh, ?_⟩
  exact hshows.metrics_eq hshows' hfresh (perform_fresh h.fresh' call) hpolicy hcore hincrements

/-- Calls have the same answers on both caches and leave them alike. -/
theorem run (h : Alike config v c c') (calls : List (Call κ ν)) :
    (c.run calls).1 = (c'.run calls).1 ∧
      Alike config (v.run config calls).2 (c.run calls).2 (c'.run calls).2 := by
  induction calls generalizing c c' v with
  | nil => exact ⟨rfl, h⟩
  | cons call calls ih =>
    rcases h.perform call with ⟨hanswer, hnext⟩
    rcases ih hnext with ⟨hanswers, hrest⟩
    exact ⟨congrArg₂ List.cons hanswer hanswers, hrest⟩

end Alike

/-! ## Snapshots -/

/-- What a caller can read off a cache. -/
structure Snapshot (κ ν : Type) where
  size : Nat
  value : κ → Option ν
  /-- All entries in the order in which they would leave. -/
  leaving : List (κ × ν)
  victim : Option κ
  frequency : κ → Option Nat
  metrics : Metrics

/-- The snapshot of a cache. -/
def snapshot (c : Cache κ ν) : Snapshot κ ν where
  size := c.size
  value := c.peek?
  leaving := c.drain.1
  victim := c.victim?
  frequency := c.frequency?
  metrics := c.metrics

theorem Alike.snapshot_eq (h : Alike config v c c') : c.snapshot = c'.snapshot := by
  rw [snapshot, snapshot, h.size_eq, h.peek?_eq, h.shows.drain_congr h.shows' h.sound h.sound,
    h.victim?_eq, h.frequency?_eq, h.metrics_eq]

end Cache

end CacheLab
