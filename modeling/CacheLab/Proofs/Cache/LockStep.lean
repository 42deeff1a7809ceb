import CacheLab.Proofs.Cache.View
import CacheLab.Proofs.Tracker

/-!
# CacheLab.Proofs.Cache.LockStep — the parts of a cache stay in step

A cache keeps its values in a hash map and its keys in a tracker. `Shows c
config v` says that both together are the view `v`: the tracker is consistent
and its queue is the queue of `v`, and the store holds the values of `v`.

* `Shows.perform`, `Shows.run`: calls on a cache are the same calls on its view,
  answer by answer.
* `Sound`: a cache that calls can reach shows a view that is sound.
* `run_inStep`: in every state that calls can reach, the two parts hold the same
  keys within the capacity, the consistency check finds nothing, and no branch
  for a missing key, node or bucket is open.
-/

namespace CacheLab

variable {κ ν : Type} [DecidableEq κ] [Hashable κ]

/-! ## What a store holds after it was written to -/

namespace Store

theorem get?_insert (s : Store κ ν) (key : κ) (value : ν) (k : κ) :
    (s.insert key value).get? k = if k = key then some value else s.get? k := by
  rw [insert, get?, Std.HashMap.getElem?_insert]
  by_cases hk : k = key
  · subst hk
    simp
  · simp [hk, Ne.symm hk, get?]

theorem get?_remove (s : Store κ ν) (key : κ) (k : κ) :
    (s.remove key).2.get? k = if k = key then none else s.get? k := by
  rw [remove, get?, Std.HashMap.getElem?_erase]
  by_cases hk : k = key
  · subst hk
    simp
  · simp [hk, Ne.symm hk, get?]

theorem get?_modify (s : Store κ ν) (key : κ) (f : ν → ν) (k : κ) :
    (s.modify key f).get? k = if k = key then (s.get? key).map f else s.get? k := by
  rw [modify, get?, Std.HashMap.getElem?_modify]
  by_cases hk : k = key
  · subst hk
    simp [get?]
  · simp [hk, Ne.symm hk, get?]

end Store

namespace Cache

variable {c : Cache κ ν} {config : Config}
  {v : View κ ν} {key : κ}

/-- The tracker is consistent, its queue is that of the view, and the store
holds the values of the view. -/
structure Shows (c : Cache κ ν) (config : Config) (v : View κ ν) : Prop where
  config_eq : c.config = config
  consistent : c.tracker.Consistent
  policy_eq : c.tracker.policy = config.policy
  queue_eq : c.tracker.queue = v.queue
  value_eq : ∀ key, c.peek? key = v.value key

namespace Shows

theorem new (config : Config) : Shows (Cache.new config : Cache κ ν) config View.empty where
  config_eq := rfl
  consistent := Tracker.consistent_new config.policy
  policy_eq := Tracker.policy_new config.policy
  queue_eq := Tracker.queue_new config.policy
  value_eq key := by simp [Cache.new, peek?, Store.get?, Store.empty, View.empty]

theorem capacity_eq (hc : Shows c config v) : c.capacity = config.capacity :=
  congrArg Config.capacity hc.config_eq

theorem contains_eq (hc : Shows c config v) (key : κ) : c.contains key = (v.value key).isSome := by
  rw [← hc.value_eq]
  exact Std.HashMap.contains_eq_isSome_getElem?

theorem victim?_eq (hc : Shows c config v) : c.victim? = v.queue.keys.head? := by
  rw [victim?, hc.consistent.victim?_eq, hc.queue_eq]

theorem frequency?_eq (hc : Shows c config v) (key : κ) :
    c.frequency? key = if config.policy = .lfu then v.queue.lookup key else none := by
  rw [frequency?, hc.consistent.frequency?_eq, hc.policy_eq, hc.queue_eq]

/-- The store holds as many entries as the queue has keys. -/
theorem size_eq (hc : Shows c config v) (hv : v.Sound config) : c.size = v.queue.length := by
  have hsize : c.store.map.size = v.queue.keys.length := by
    apply size_eq_length hv.keys_nodup
    intro key
    rw [hv.mem_keys_iff, ← hc.contains_eq]
    rfl
  rwa [EvictionQueue.length_keys] at hsize

/-! ## Parts of a step -/

theorem withMetrics (hc : Shows c config v) (metrics : Metrics) :
    Shows { c with metrics } config v :=
  ⟨hc.config_eq, hc.consistent, hc.policy_eq, hc.queue_eq, hc.value_eq⟩

/-- Writing to the store. -/
theorem withStore (hc : Shows c config v) {store : Store κ ν} {value : Option ν}
    (hstore : ∀ k, store.get? k = if k = key then value else c.store.get? k) :
    Shows { c with store } config (v.set key value) where
  config_eq := hc.config_eq
  consistent := hc.consistent
  policy_eq := hc.policy_eq
  queue_eq := hc.queue_eq
  value_eq k := by
    rw [View.value_set, ← hc.value_eq]
    exact hstore k

/-- Moving the tracker on. -/
theorem withTracker (hc : Shows c config v) {tracker : Tracker κ} {queue : EvictionQueue κ}
    (htracker : tracker.Consistent ∧ tracker.policy = c.tracker.policy ∧ tracker.queue = queue) :
    Shows { c with tracker } config { v with queue } where
  config_eq := hc.config_eq
  consistent := htracker.1
  policy_eq := htracker.2.1.trans hc.policy_eq
  queue_eq := htracker.2.2
  value_eq := hc.value_eq

theorem insertStore (hc : Shows c config v) (key : κ) (value : ν) :
    Shows { c with store := c.store.insert key value } config (v.set key (some value)) :=
  hc.withStore (c.store.get?_insert key value)

theorem removeStore (hc : Shows c config v) (key : κ) :
    Shows { c with store := (c.store.remove key).2 } config (v.set key none) :=
  hc.withStore (c.store.get?_remove key)

theorem modifyStore (hc : Shows c config v) (key : κ) (f : ν → ν) :
    Shows { c with store := c.store.modify key f } config (v.set key ((v.value key).map f)) := by
  rw [← hc.value_eq]
  exact hc.withStore (c.store.get?_modify key f)

theorem touch (hc : Shows c config v) (key : κ) :
    Shows (c.touch key) config (v.touch config.policy key) := by
  rcases hc.consistent.access key with ⟨hconsistent, hpolicy, hqueue⟩
  rw [hc.queue_eq, hc.policy_eq] at hqueue
  have hconfig : c.policy = config.policy := congrArg Config.policy hc.config_eq
  unfold Cache.touch
  rw [hconfig]
  by_cases htracks : config.policy.tracksAccess = true
  · rw [if_pos htracks]
    exact (hc.withTracker ⟨hconsistent, hpolicy, hqueue⟩).withMetrics _
  · -- under `fifo` an access moves nothing
    have haccess : v.queue.access config.policy key = v.queue := if_neg htracks
    rw [if_neg htracks, View.touch, haccess]
    exact hc

theorem evict (hc : Shows c config v) (hv : v.Sound config) :
    (c.evict).1 = (v.evict).1 ∧ Shows (c.evict).2 config (v.evict).2 := by
  rcases hc.consistent.evict with ⟨hkey, hconsistent, hpolicy, hqueue⟩
  rw [hc.queue_eq] at hkey hqueue
  have htracker := hc.withTracker ⟨hconsistent, hpolicy, hqueue⟩
  rcases hevict : c.tracker.evict with ⟨victim, tracker⟩
  rw [hevict] at hkey htracker
  cases hq : v.queue with
  | nil =>
    -- nothing is tracked, so nothing leaves
    have hview := View.evict_of_nil hq
    rw [hq] at hkey
    obtain rfl : victim = none := hkey
    have hsame : v.queue.tail = v.queue := by rw [hq, List.tail_nil]
    have hcache : c.evict = (none, { c with tracker }) := by simp only [Cache.evict, hevict]
    rw [hsame] at htracker
    rw [hview, hcache]
    exact ⟨rfl, htracker⟩
  | cons p queue =>
    -- the victim is queued, so it has a value
    have hview := View.evict_of_cons hq
    have hmem : p.1 ∈ v.queue.keys := by
      rw [hq]
      exact List.mem_cons_self
    rcases Option.isSome_iff_exists.mp ((hv.mem_keys_iff p.1).mp hmem) with ⟨value, hvalue⟩
    have hfound : (c.store.remove p.1).1 = some value := (hc.value_eq p.1).trans hvalue
    rw [hq] at hkey htracker
    obtain rfl : victim = some p.1 := hkey
    have hshows := (htracker.removeStore p.1).withMetrics (c.metrics.record .eviction)
    rcases hstored : c.store.remove p.1 with ⟨found, store⟩
    have hcache : c.evict = (some (p.1, value), { c with tracker, store }.record .eviction) := by
      rw [hstored] at hfound
      obtain rfl : found = some value := hfound
      simp only [Cache.evict, hevict, hstored]
    rw [hstored] at hshows
    rw [hview, hvalue, hcache]
    exact ⟨rfl, hshows⟩

/-! ## Operations -/

theorem get (hc : Shows c config v) (hv : v.Sound config) (key : κ) :
    (c.get key).1 = v.value key ∧ Shows (c.get key).2 config (v.touch config.policy key) := by
  unfold Cache.get
  rw [hc.value_eq]
  cases hvalue : v.value key with
  | none =>
    rw [hv.touch_of_none hvalue]
    exact ⟨rfl, hc.withMetrics _⟩
  | some value => exact ⟨rfl, (hc.touch key).withMetrics _⟩

theorem modify (hc : Shows c config v) (hv : v.Sound config) (key : κ) (f : ν → ν) :
    (c.modify key f).1 = v.value key ∧ Shows (c.modify key f).2 config
      ((v.touch config.policy key).set key ((v.value key).map f)) := by
  unfold Cache.modify
  rw [hc.value_eq]
  cases hvalue : v.value key with
  | none =>
    rw [hv.touch_of_none hvalue, Option.map_none, View.set_of_eq hvalue]
    exact ⟨rfl, hc.withMetrics _⟩
  | some value =>
    have hmodify := (hc.touch key).modifyStore key f
    rw [View.touch, hvalue] at hmodify
    exact ⟨rfl, hmodify.withMetrics _⟩

theorem makeRoom (hc : Shows c config v) (hv : v.Sound config) :
    let room := if c.capacity ≤ c.size then c.evict else (none, c)
    room.1 = (v.makeRoom config.capacity).1 ∧
      Shows room.2 config (v.makeRoom config.capacity).2 := by
  rw [hc.capacity_eq, hc.size_eq hv]
  unfold View.makeRoom
  split
  · exact hc.evict hv
  · exact ⟨rfl, hc⟩

theorem insert (hc : Shows c config v) (hv : v.Sound config) (hnone : v.value key = none)
    (value : ν) :
    Shows { c with store := c.store.insert key value, tracker := c.tracker.insert key } config
      (v.insert key value) := by
  -- an absent key is not tracked, so this is not an access
  have hfresh : key ∉ c.tracker.queue.keys := by
    rw [hc.queue_eq]
    exact hv.notMem_iff.mpr hnone
  have htracker := hc.consistent.insert hfresh
  rw [hc.queue_eq] at htracker
  exact (hc.insertStore key value).withTracker htracker

theorem put (hc : Shows c config v) (hv : v.Sound config) (key : κ) (value : ν) :
    (c.put key value).1 = (v.put config key value).1 ∧
      Shows (c.put key value).2 config (v.put config key value).2 := by
  have hroom := hc.makeRoom hv
  rcases hv.makeRoom with ⟨hsound, -, hnone⟩
  unfold Cache.put View.put
  rw [hc.value_eq]
  cases hvalue : v.value key with
  | some old => exact ⟨rfl, ((hc.insertStore key value).touch key).withMetrics _⟩
  | none =>
    have hinsert := hroom.2.insert hsound (hnone key hvalue) value
    exact ⟨hroom.1, hinsert.withMetrics _⟩

theorem remove (hc : Shows c config v) (hv : v.Sound config) (key : κ) :
    (c.remove key).1 = v.value key ∧ Shows (c.remove key).2 config (v.drop key) := by
  unfold Cache.remove
  rw [hc.value_eq]
  cases hvalue : v.value key with
  | none =>
    rw [hv.drop_of_none hvalue]
    exact ⟨rfl, hc⟩
  | some value =>
    rcases hc.consistent.remove key with ⟨-, htracker⟩
    rw [hc.queue_eq] at htracker
    exact ⟨rfl, ((hc.removeStore key).withTracker htracker).withMetrics _⟩

theorem clear (hc : Shows c config v) : Shows c.clear config View.empty := by
  have hshows : Shows { c with store := c.store.clear, tracker := c.tracker.clear } config
      View.empty := by
    rw [Tracker.clear_eq, hc.policy_eq, hc.config_eq]
    exact (new config).withMetrics c.metrics
  exact hshows.withMetrics _

/-- A call on a cache is the same call on its view. -/
theorem perform (hc : Shows c config v) (hv : v.Sound config) (call : Call κ ν) :
    (c.perform call).1 = (v.perform config call).1 ∧
      Shows (c.perform call).2 config (v.perform config call).2 := by
  cases call with
  | put key value =>
    rcases hc.put hv key value with ⟨hanswer, hshows⟩
    exact ⟨congrArg Answer.entry hanswer, hshows⟩
  | get key =>
    rcases hc.get hv key with ⟨hanswer, hshows⟩
    exact ⟨congrArg Answer.value hanswer, hshows⟩
  | modify key f =>
    rcases hc.modify hv key f with ⟨hanswer, hshows⟩
    exact ⟨congrArg Answer.value hanswer, hshows⟩
  | remove key =>
    rcases hc.remove hv key with ⟨hanswer, hshows⟩
    exact ⟨congrArg Answer.value hanswer, hshows⟩
  | erase key =>
    rcases hc.remove hv key with ⟨hanswer, hshows⟩
    refine ⟨?_, hshows⟩
    show Answer.flag (c.remove key).1.isSome = Answer.flag (v.value key).isSome
    rw [hanswer]
  | pop =>
    rcases hc.evict hv with ⟨hanswer, hshows⟩
    exact ⟨congrArg Answer.entry hanswer, hshows.withMetrics _⟩
  | clear => exact ⟨rfl, hc.clear⟩
  | contains key => exact ⟨congrArg Answer.flag (hc.contains_eq key), hc⟩
  | peek key => exact ⟨congrArg Answer.value (hc.value_eq key), hc⟩
  | victim => exact ⟨congrArg Answer.key hc.victim?_eq, hc⟩
  | frequency key => exact ⟨congrArg Answer.count (hc.frequency?_eq key), hc⟩

/-- Calls on a cache are the same calls on its view. -/
theorem run (hc : Shows c config v) (hv : v.Sound config) (calls : List (Call κ ν)) :
    (c.run calls).1 = (v.run config calls).1 ∧
      Shows (c.run calls).2 config (v.run config calls).2 ∧
      (v.run config calls).2.Sound config := by
  induction calls generalizing c v with
  | nil => exact ⟨rfl, hc, hv⟩
  | cons call calls ih =>
    -- the cache still shows the view after one call, and the view is still sound
    rcases hc.perform hv call with ⟨hanswer, hshows⟩
    rcases ih hshows (hv.perform call) with ⟨hanswers, hrest⟩
    exact ⟨congrArg₂ List.cons hanswer hanswers, hrest⟩

end Shows

/-! ## The lock-step invariant -/

/-- The store and the tracker hold the same keys, within the capacity, and no
branch for a missing key, node or bucket is open. -/
structure InStep (c : Cache κ ν) : Prop where
  size_le : c.size ≤ c.capacity
  /-- The tracker lists each stored key once and no other key. -/
  keys_perm : c.tracker.keys.Perm c.store.keys
  keys_nodup : c.tracker.keys.Nodup
  victim?_eq_none_iff : c.victim? = none ↔ c.isEmpty = true
  fault?_eq_none : c.fault? = none
  /-- The victim has a value in the store. -/
  evicted_stored : ∀ key, (c.tracker.evict).1 = some key → c.store.contains key = true
  /-- A stored key is found by the tracker when it is removed. -/
  stored_tracked : ∀ key, c.store.contains key = true → (c.tracker.remove key).1 = true
  /-- Access, removal and eviction meet no missing bucket. -/
  noDeadEnd : ∀ order, c.tracker = .lfu order → order.NoDeadEnd
  /-- Neither does the insertion that follows an eviction. -/
  noDeadEnd_evict : ∀ order, (c.evict).2.tracker = .lfu order → order.NoDeadEnd

namespace Shows

theorem keys_perm (hc : Shows c config v) (hv : v.Sound config) :
    c.tracker.keys.Perm c.store.keys := by
  apply c.tracker.keys_perm.trans
  rw [hc.queue_eq]
  apply (List.perm_ext_iff_of_nodup hv.keys_nodup Std.HashMap.nodup_keys).mpr
  intro key
  have hstored : key ∈ c.store.keys ↔ c.contains key = true :=
    Std.HashMap.mem_keys.trans Std.HashMap.mem_iff_contains
  rw [hv.mem_keys_iff, ← hc.contains_eq]
  exact hstored.symm

theorem fault?_eq_none (hc : Shows c config v) (hv : v.Sound config) : c.fault? = none := by
  have hsize := hc.size_eq hv
  have hfits : ¬ c.capacity < c.size := by
    rw [hc.capacity_eq, hsize]
    exact Nat.not_lt.mpr hv.length_le
  have hsame : c.size = c.tracker.size := by rw [hsize, hc.consistent.size_eq, hc.queue_eq]
  -- the tracker contains each stored key, as it lists the same keys
  have htracked : ¬ (c.store.keys.any fun key => !c.tracker.contains key) = true := by
    rw [Bool.not_eq_true, List.any_eq_false]
    intro key hkey
    rw [Bool.not_eq_true, Bool.not_eq_false', hc.consistent.contains_iff]
    exact c.tracker.keys_perm.mem_iff.mp ((hc.keys_perm hv).mem_iff.mpr hkey)
  rw [fault?, if_neg hfits, if_neg (not_not_intro hsame), if_neg htracked]
  exact hc.consistent.fault?_eq_none

theorem inStep (hc : Shows c config v) (hv : v.Sound config) : c.InStep where
  size_le := by
    rw [hc.size_eq hv, hc.capacity_eq]
    exact hv.length_le
  keys_perm := hc.keys_perm hv
  keys_nodup := c.tracker.keys_perm.nodup_iff.mpr hc.consistent.keys_nodup
  victim?_eq_none_iff := by
    have hempty : c.isEmpty = true ↔ c.size = 0 := beq_iff_eq
    rw [hempty, hc.size_eq hv, hc.victim?_eq, List.head?_eq_none_iff, List.length_eq_zero_iff]
    exact List.map_eq_nil_iff
  fault?_eq_none := hc.fault?_eq_none hv
  evicted_stored := by
    intro key hkey
    rw [hc.consistent.evict.1, hc.queue_eq] at hkey
    have hmem : key ∈ v.queue.keys := List.mem_of_head? hkey
    exact (hc.contains_eq key).trans ((hv.mem_keys_iff key).mp hmem)
  stored_tracked := by
    intro key hstored
    have hvalue : (v.value key).isSome := (hc.contains_eq key).symm.trans hstored
    have hmem : key ∈ v.queue.keys := (hv.mem_keys_iff key).mpr hvalue
    rw [(hc.consistent.remove key).1, hc.queue_eq]
    exact decide_eq_true hmem
  noDeadEnd _ heq := hc.consistent.noDeadEnd heq
  noDeadEnd_evict _ heq := (hc.evict hv).2.consistent.noDeadEnd heq

end Shows

/-! ## Caches that calls can reach -/

/-- The cache is in a state that calls can reach: a sound view shows it. -/
def Sound (config : Config) (c : Cache κ ν) : Prop :=
  ∃ v : View κ ν, c.Shows config v ∧ v.Sound config

namespace Sound

theorem new (config : Config) : (Cache.new config : Cache κ ν).Sound config :=
  ⟨View.empty, Shows.new config, View.Sound.empty⟩

theorem perform (hc : c.Sound config) (call : Call κ ν) : (c.perform call).2.Sound config := by
  rcases hc with ⟨v, hshows, hsound⟩
  exact ⟨_, (hshows.perform hsound call).2, hsound.perform call⟩

theorem run (hc : c.Sound config) (calls : List (Call κ ν)) : (c.run calls).2.Sound config := by
  rcases hc with ⟨v, hshows, hsound⟩
  exact ⟨_, (hshows.run hsound calls).2⟩

theorem inStep (hc : c.Sound config) : c.InStep := by
  rcases hc with ⟨v, hshows, hsound⟩
  exact hshows.inStep hsound

theorem policy_eq (hc : c.Sound config) : c.policy = config.policy := by
  rcases hc with ⟨v, hshows, -⟩
  exact congrArg Config.policy hshows.config_eq

theorem consistent (hc : c.Sound config) :
    c.tracker.Consistent ∧ c.tracker.policy = config.policy := by
  rcases hc with ⟨v, hshows, -⟩
  exact ⟨hshows.consistent, hshows.policy_eq⟩

theorem capacity_eq (hc : c.Sound config) : c.capacity = config.capacity := by
  rcases hc with ⟨v, hshows, -⟩
  exact hshows.capacity_eq

theorem size_le (hc : c.Sound config) : c.size ≤ config.capacity := by
  rw [← hc.capacity_eq]
  exact hc.inStep.size_le

end Sound

/-- In every state that calls can reach, the parts of the cache are in step. -/
theorem run_inStep (config : Config) (calls : List (Call κ ν)) :
    ((new config : Cache κ ν).run calls).2.config = config ∧
      ((new config : Cache κ ν).run calls).2.InStep := by
  rcases (Shows.new config).run View.Sound.empty calls with ⟨-, hshows, hsound⟩
  exact ⟨hshows.config_eq, hshows.inStep hsound⟩

end Cache

end CacheLab
