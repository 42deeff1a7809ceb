import CacheLab.Proofs.Cache.Alike

/-!
# CacheLab.Proofs.Cache.Removal — a removal commutes with calls on other keys

To take a key out before or after a call on another key comes to the same, as long as that call
inserts nothing. Inside it does not: under `lfu` the two orders make, drop and make again
different buckets, and free and take different slots. So the argument is about views.

* `EvictionQueue.without_place`: a queue is sorted by count, so a key is placed behind the same
  keys whether or not another key is there. From it `without_access`.
* `View.Sound.perform_drop` is the step lemma: a call on one key (`Call.KeepsTo`) answers the same
  on the view without another key, and leaves the view that it would have left, without that key.
* `remove_commutes`: the caches after the two orders show the same view and have the same
  metrics, so they are alike.
-/

namespace CacheLab

/-! ## The queue of a tracker is sorted -/

/-- Buckets by ascending count are a sorted queue. -/
theorem Frequency.Rungs.sorted_queue {κ : Type} {rungs : Rungs κ}
    (hascending : (counts rungs).Pairwise (· < ·)) : (queue rungs).Sorted := by
  have hcount : ∀ (n : Nat) (nodes : List (Handle × κ)), ∀ p ∈ leaving n nodes, p.2 = n := by
    intro n nodes p hp
    rcases List.mem_map.mp (List.mem_reverse.mp hp) with ⟨q, -, rfl⟩
    rfl
  apply List.pairwise_flatMap.mpr
  constructor
  · -- the keys of one bucket have one count
    intro rung _
    apply List.pairwise_reverse.mpr
    apply List.pairwise_map.mpr
    exact List.pairwise_of_forall fun _ _ => Nat.le_refl _
  · apply (List.pairwise_map.mp hascending).imp
    intro rung rung' hlt p hp p' hp'
    rw [hcount _ _ p hp, hcount _ _ p' hp']
    exact Nat.le_of_lt hlt

theorem Tracker.Consistent.sorted_queue {κ : Type} [DecidableEq κ] [Hashable κ] {t : Tracker κ}
    (ht : t.Consistent) : t.queue.Sorted := by
  cases t with
  | lru t => exact EvictionQueue.sorted_uniform _
  | fifo t => exact EvictionQueue.sorted_uniform _
  | lfu t => exact Frequency.Rungs.sorted_queue (Frequency.Consistent.layout ht).ladder.ascending

/-! ## Calls on one key -/

/-- The call is on `key` alone and inserts nothing: where it puts a value, the key has one. -/
inductive Call.KeepsTo {κ ν : Type} (value : κ → Option ν) (key : κ) : Call κ ν → Prop where
  | get : KeepsTo value key (.get key)
  | modify (f : ν → ν) : KeepsTo value key (.modify key f)
  | peek : KeepsTo value key (.peek key)
  | contains : KeepsTo value key (.contains key)
  | frequency : KeepsTo value key (.frequency key)
  | remove : KeepsTo value key (.remove key)
  | erase : KeepsTo value key (.erase key)
  | update (old new : ν) : value key = some old → KeepsTo value key (.put key new)

namespace View

variable {κ ν : Type} [DecidableEq κ] {config : Config} {v : View κ ν} {key a : κ} {call : Call κ ν}

theorem drop_set (v : View κ ν) (hne : key ≠ a) (value : Option ν) :
    (v.set key value).drop a = (v.drop a).set key value := by
  have hvalue := Function.update_comm hne value (none : Option ν) v.value
  exact congrArg (View.mk (v.queue.without a)) hvalue

theorem drop_touch (hv : v.queue.Sorted) (hne : key ≠ a) (policy : Policy) :
    (v.touch policy key).drop a = (v.drop a).touch policy key :=
  congrArg (View.mk · (Function.update v.value a none))
    (EvictionQueue.without_access hv hne policy)

theorem drop_drop (v : View κ ν) (hne : key ≠ a) : (v.drop key).drop a = (v.drop a).drop key := by
  have hvalue := Function.update_comm hne (none : Option ν) (none : Option ν) v.value
  have hqueue := v.queue.without_comm key a
  exact congrArg₂ View.mk hqueue hvalue

theorem value_drop_of_ne (v : View κ ν) (hne : key ≠ a) : (v.drop a).value key = v.value key := by
  rw [value_drop, if_neg hne]

/-- A call on one key answers the same without another key, and leaves what it would have left,
without that key. -/
theorem perform_drop (hv : v.queue.Sorted) (hne : key ≠ a) (hcall : call.KeepsTo v.value key) :
    (v.drop a).perform config call =
      ((v.perform config call).1, (v.perform config call).2.drop a) := by
  have hvalue := v.value_drop_of_ne hne
  have hlookup : (v.drop a).queue.lookup key = v.queue.lookup key :=
    EvictionQueue.lookup_without v.queue hne
  cases hcall with
  | get => simp only [perform, hvalue, drop_touch hv hne]
  | modify f => simp only [perform, hvalue, drop_set _ hne, drop_touch hv hne]
  | peek => simp only [perform, hvalue]
  | contains => simp only [perform, hvalue]
  | frequency => simp only [perform, hlookup]
  | remove => simp only [perform, hvalue, drop_drop _ hne]
  | erase => simp only [perform, hvalue, drop_drop _ hne]
  | update old new hold =>
    simp only [perform, put, hvalue, hold, drop_set _ hne, drop_touch hv hne]

/-- A call on one key leaves the values of the others alone. -/
theorem value_perform (hne : key ≠ a) (hcall : call.KeepsTo v.value key) :
    (v.perform config call).2.value a = v.value a := by
  have hset : ∀ (w : View κ ν) (value : Option ν), (w.set key value).value a = w.value a := by
    intro w value
    rw [value_set, if_neg hne.symm]
  cases hcall with
  | get => rfl
  | modify f => exact hset (v.touch config.policy key) _
  | peek => rfl
  | contains => rfl
  | frequency => rfl
  | remove => exact v.value_drop_of_ne hne.symm
  | erase => exact v.value_drop_of_ne hne.symm
  | update old new hold =>
    simp only [perform, put, hold]
    exact hset (v.touch config.policy key) _

/-- The promotions of a call on one key do not depend on another key. -/
theorem promotions_drop (hv : v.queue.Sorted) (hne : key ≠ a) (policy : Policy)
    (hcall : call.KeepsTo v.value key) :
    (v.drop a).promotions policy call = v.promotions policy call := by
  have hpromoted : (v.drop a).promoted policy key = v.promoted policy key := by
    show (if policy = .lfu ∧ ((v.queue.without a).access policy key).lookup key ≠
      (v.queue.without a).lookup key then 1 else 0) = _
    rw [← EvictionQueue.without_access hv hne, EvictionQueue.lookup_without _ hne,
      EvictionQueue.lookup_without _ hne, promoted]
  cases hcall with
  | get => rw [promotions, promotions, v.value_drop_of_ne hne, hpromoted]
  | modify f => rw [promotions, promotions, v.value_drop_of_ne hne, hpromoted]
  | peek => rfl
  | contains => rfl
  | frequency => rfl
  | remove => rfl
  | erase => rfl
  | update old new hold => rw [promotions, promotions, v.value_drop_of_ne hne, hpromoted]

end View

/-! ## Counters -/

/-- A removal can be counted before or after an event, unless the event adds an entry or
drops them all. -/
theorem Counters.record_removal (n : Counters) (events : List Event)
    (hevents : ∀ e ∈ events, e ≠ .insertion ∧ e ≠ .clear) :
    (n.recordAll events).record .removal = (n.record .removal).recordAll events := by
  induction events generalizing n with
  | nil => rfl
  | cons e events ih =>
    rcases List.forall_mem_cons.mp hevents with ⟨⟨hadds, hdrops⟩, hrest⟩
    have hswap : (n.record e).record .removal = (n.record .removal).record e := by
      cases e with
      | hit => rfl
      | miss => rfl
      | insertion => exact absurd rfl hadds
      | update => rfl
      | eviction => rfl
      | removal => rfl
      | clear => exact absurd rfl hdrops
    show ((n.record e).recordAll events).record .removal = _
    rw [ih _ hrest, hswap]
    rfl

namespace Cache

variable {κ ν : Type} [DecidableEq κ] [Hashable κ] {c c' : Cache κ ν} {config : Config}
  {v : View κ ν} {key a : κ} {call : Call κ ν}

/-- A call on one key neither adds an entry nor drops them all. -/
theorem events_keepsTo (hcall : call.KeepsTo c.peek? key) :
    ∀ e ∈ c.events call, e ≠ .insertion ∧ e ≠ .clear := by
  have hone : ∀ e' : Event, e' ≠ .insertion ∧ e' ≠ .clear →
      ∀ e ∈ [e'], e ≠ .insertion ∧ e ≠ .clear := by
    intro e' he' e he
    rwa [List.mem_singleton.mp he]
  have hnone : ∀ e ∈ ([] : List Event), e ≠ .insertion ∧ e ≠ .clear := List.forall_mem_nil _
  have hremoval : ∀ e ∈ if (c.peek? key).isSome then [Event.removal] else [],
      e ≠ .insertion ∧ e ≠ .clear := by
    cases (c.peek? key).isSome with
    | true => exact hone .removal (by decide)
    | false => exact hnone
  have hlookup : ∀ e ∈ [if (c.peek? key).isSome then Event.hit else .miss],
      e ≠ .insertion ∧ e ≠ .clear := by
    cases (c.peek? key).isSome with
    | true => exact hone .hit (by decide)
    | false => exact hone .miss (by decide)
  cases hcall with
  | get => exact hlookup
  | modify f => exact hlookup
  | peek => exact hnone
  | contains => exact hnone
  | frequency => exact hnone
  | remove => exact hremoval
  | erase => exact hremoval
  | update old new hold =>
    rw [events, hold]
    exact hone .update (by decide)

/-- What a call on one key counts is told by the value of this key. -/
theorem events_congr (hcall : call.KeepsTo c.peek? key) (hpeek : c'.peek? key = c.peek? key) :
    c'.events call = c.events call := by
  cases hcall with
  | get => rw [events, events, hpeek]
  | modify f => rw [events, events, hpeek]
  | peek => rfl
  | contains => rfl
  | frequency => rfl
  | remove => rw [events, events, hpeek]
  | erase => rw [events, events, hpeek]
  | update old new hold => rw [events, events, hpeek, hold]; rfl

/-- The two orders have the same answers and leave caches that are alike. -/
theorem Shows.remove_perform (hc : c.Shows config v) (hv : v.Sound config) (hfresh : c.Fresh)
    (hne : key ≠ a) (hcall : call.KeepsTo c.peek? key) :
    ((c.remove a).2.perform call).1 = (c.perform call).1 ∧
      ((c.perform call).2.remove a).1 = (c.remove a).1 ∧
      Alike config ((v.perform config call).2.drop a) ((c.remove a).2.perform call).2
        ((c.perform call).2.remove a).2 := by
  have hsorted : v.queue.Sorted := hc.queue_eq ▸ hc.consistent.sorted_queue
  have hvalue : c.peek? = v.value := funext hc.value_eq
  have hcall' : call.KeepsTo v.value key := hvalue ▸ hcall
  rcases hc.remove hv a with ⟨hanswer, hshows⟩
  rcases hc.perform hv call with ⟨hanswer', hshows'⟩
  have hperform := hshows.perform (hv.drop a) call
  rw [View.perform_drop hsorted hne hcall'] at hperform
  have hremove := hshows'.remove (hv.perform call) a
  rw [View.value_perform hne hcall'] at hremove
  -- neither call finds another value for the other one's key
  have hpeek : (c.remove a).2.peek? key = c.peek? key := by
    rw [hshows.value_eq, hc.value_eq, v.value_drop_of_ne hne]
  have hpeek' : (c.perform call).2.peek? a = c.peek? a := by
    rw [hshows'.value_eq, hc.value_eq, View.value_perform hne hcall']
  have hfresh₁ : ((c.remove a).2.perform call).2.Fresh :=
    perform_fresh (perform_fresh hfresh (.remove a)) call
  have hfresh₂ : ((c.perform call).2.remove a).2.Fresh :=
    perform_fresh (perform_fresh hfresh call) (.remove a)
  have hpolicy : ((c.remove a).2.perform call).2.metrics.policy =
      ((c.perform call).2.remove a).2.metrics.policy := by
    rw [metrics_policy_perform, metrics_policy_remove, metrics_policy_remove,
      metrics_policy_perform]
  have hcore : ((c.remove a).2.perform call).2.metrics.core =
      ((c.perform call).2.remove a).2.metrics.core := by
    rw [core_perform, events_congr hcall hpeek, core_remove, core_remove, remove_fst, remove_fst,
      hpeek', core_perform]
    split
    · exact (Counters.record_removal _ _ (events_keepsTo hcall)).symm
    · rfl
  have hincrements : ((c.remove a).2.perform call).2.increments? =
      ((c.perform call).2.remove a).2.increments? := by
    rw [hshows.increments?_perform, increments?_remove, increments?_remove,
      hc.increments?_perform, View.promotions_drop hsorted hne config.policy hcall']
  refine ⟨hperform.1.trans hanswer'.symm, hremove.1.trans hanswer.symm, ?_⟩
  exact
    { shows := hperform.2
      shows' := hremove.2
      sound := (hv.perform call).drop a
      fresh := hfresh₁
      metrics_eq := hperform.2.metrics_eq hremove.2 hfresh₁ hfresh₂ hpolicy hcore hincrements }

/-- In every state that calls can reach, to take one key out before or after a call on another
key that inserts nothing comes to the same: both calls have the answers that they would have
alone or in the other order, and the two caches that are left show the same to a caller, now
and after any later calls. -/
theorem remove_commutes (config : Config) (calls : List (Call κ ν)) {a b : κ} (hne : a ≠ b)
    (call : Call κ ν)
    (hcall : call.KeepsTo ((new config : Cache κ ν).run calls).2.peek? b) :
    let c := ((new config : Cache κ ν).run calls).2
    let removedFirst := (c.remove a).2.perform call
    let removedLast := (c.perform call).2.remove a
    removedFirst.1 = (c.perform call).1 ∧ removedLast.1 = (c.remove a).1 ∧
      removedFirst.2.snapshot = removedLast.2.snapshot ∧
      ∀ later, (removedFirst.2.run later).1 = (removedLast.2.run later).1 ∧
        (removedFirst.2.run later).2.snapshot = (removedLast.2.run later).2.snapshot := by
  intro c removedFirst removedLast
  rcases (Shows.new config).run View.Sound.empty calls with ⟨-, hshows, hsound⟩
  have hfresh : c.Fresh := run_fresh (fresh_new config) calls
  rcases hshows.remove_perform hsound hfresh hne.symm hcall with ⟨hfirst, hlast, halike⟩
  refine ⟨hfirst, hlast, halike.snapshot_eq, ?_⟩
  intro later
  rcases halike.run later with ⟨hanswers, hrest⟩
  exact ⟨hanswers, hrest.snapshot_eq⟩

/-- Keys 1 and 2 share a bucket, and key 3 is alone in the next one: an update moves key 2 up to
it, whether key 1 leaves the lower bucket before or after. -/
theorem remove_commutes_two_buckets :
    let config : Config := ⟨3, .lfu, Nat.succ_pos 2⟩
    let calls : List (Call Nat Nat) := [.put 1 10, .put 2 20, .put 3 30, .get 3]
    let c := ((new config : Cache Nat Nat).run calls).2
    let removedFirst := (c.remove 1).2.perform (.put 2 21)
    let removedLast := (c.perform (.put 2 21)).2.remove 1
    (1 ≠ 2 ∧ c.peek? 2 = some 20) ∧ removedFirst.1 = .entry (some (2, 20)) ∧
      removedLast.1 = some 10 ∧ removedFirst.2.snapshot = removedLast.2.snapshot := by
  intro config calls c removedFirst removedLast
  rcases (Shows.new config : Shows (new config : Cache Nat Nat) _ _).run View.Sound.empty calls with
    ⟨-, hshows, hsound⟩
  have hpeek : c.peek? 2 = some 20 := (hshows.value_eq 2).trans rfl
  have hne : 1 ≠ 2 := by decide
  rcases remove_commutes config calls hne (.put 2 21) (.update 20 21 hpeek) with
    ⟨hfirst, hlast, hsame, -⟩
  have hupdate : (c.perform (.put 2 21)).1 = .entry (some (2, 20)) :=
    (hshows.perform hsound _).1.trans rfl
  have hremoval : (c.remove 1).1 = some 10 := (hshows.remove hsound 1).1.trans rfl
  exact ⟨⟨hne, hpeek⟩, hfirst.trans hupdate, hlast.trans hremoval, hsame⟩

end Cache

end CacheLab
