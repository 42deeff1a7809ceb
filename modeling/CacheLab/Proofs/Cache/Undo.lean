import CacheLab.Proofs.Cache.Alike

/-!
# CacheLab.Proofs.Cache.Undo — a removal undoes an insertion

To put a new key into a cache with room and to take it out again changes nothing that a caller can
see but two counters. Inside, much is changed: a slot was taken and freed, so the next nodes get
other slots, and under `lfu` a bucket for one access may have been made in front and dropped.

* `View.Sound.drop_insert`: the view is restored. A removal takes out what `EvictionQueue.insert`
  placed, wherever that was.
* `Shows.put_remove`: so the cache shows the view that it showed before the two calls, and
  `Shows.metrics_put_remove`: its metrics are those from before, with both calls counted.
* `put_remove_restores`: all readings are those from before, and so are the answers of all later
  calls, since the view tells them.
-/

namespace CacheLab

namespace View

variable {κ ν : Type} [DecidableEq κ] {config : Config} {v : View κ ν} {key : κ}

/-- A new key displaces nothing if there is room. -/
theorem put_of_room (hfresh : v.value key = none) (hroom : v.queue.length < config.capacity)
    (value : ν) : v.put config key value = (none, v.insert key value) := by
  have hstay : v.makeRoom config.capacity = (none, v) := if_neg (Nat.not_le.mpr hroom)
  simp only [put, hfresh, hstay]

/-- Taking a new key out again leaves the view as it was. -/
theorem Sound.drop_insert (hv : v.Sound config) (hfresh : v.value key = none) (value : ν) :
    (v.insert key value).drop key = v := by
  have hqueue : (v.queue.insert key).without key = v.queue :=
    EvictionQueue.without_insert (hv.notMem_iff.mpr hfresh)
  have hvalue : Function.update (Function.update v.value key (some value)) key none = v.value := by
    rw [Function.update_idem, ← hfresh, Function.update_eq_self]
  exact congrArg₂ View.mk hqueue hvalue

end View

namespace Cache

variable {κ ν : Type} [DecidableEq κ] [Hashable κ] {c : Cache κ ν} {config : Config}
  {v : View κ ν} {key : κ}

namespace Shows

/-- A new key displaces nothing, the removal answers its value, and the old view is back. -/
theorem put_remove (hc : c.Shows config v) (hv : v.Sound config) (hroom : c.size < config.capacity)
    (habsent : c.peek? key = none) (value : ν) :
    (c.put key value).1 = none ∧ ((c.put key value).2.remove key).1 = some value ∧
      ((c.put key value).2.remove key).2.Shows config v := by
  rw [hc.size_eq hv] at hroom
  rw [hc.value_eq] at habsent
  rcases hc.put hv key value with ⟨hput, hadded⟩
  rw [View.put_of_room habsent hroom] at hput hadded
  rcases hadded.remove (hv.insert habsent hroom value) key with ⟨hremove, hleft⟩
  rw [View.value_insert, if_pos rfl] at hremove
  rw [hv.drop_insert habsent] at hleft
  exact ⟨hput, hremove, hleft⟩

/-- Both calls are counted. The copies of the spread of the access counts are fresh after each
call, so they are back as well. -/
theorem metrics_put_remove (hc : c.Shows config v) (hv : v.Sound config) (hfresh : c.Fresh)
    (hroom : c.size < config.capacity) (habsent : c.peek? key = none) (value : ν) :
    ((c.put key value).2.remove key).2.metrics =
      (c.metrics.record .insertion).record .removal := by
  let counted : Cache κ ν := { c with metrics := (c.metrics.record .insertion).record .removal }
  rcases hc.put_remove hv hroom habsent value with ⟨-, hremove, hleft⟩
  have hcounted : counted.Shows config v := hc.withMetrics _
  have hfresh' : ((c.put key value).2.remove key).2.Fresh :=
    perform_fresh (perform_fresh hfresh (.put key value)) (.remove key)
  have hpolicy : ((c.put key value).2.remove key).2.metrics.policy = counted.metrics.policy :=
    (metrics_policy_remove _ key).trans (c.metrics_policy_perform (.put key value))
  have hcore : ((c.put key value).2.remove key).2.metrics.core = counted.metrics.core := by
    rw [← hc.capacity_eq] at hroom
    rw [core_remove, hremove, core_put_of_none c habsent, if_neg (Nat.not_le.mpr hroom)]
    rfl
  have hincrements : ((c.put key value).2.remove key).2.increments? = counted.increments? := by
    rw [increments?_remove, increments?_put_of_none habsent]
    rfl
  exact hleft.metrics_eq hcounted hfresh' hfresh hpolicy hcore hincrements

end Shows

/-- In every state that calls can reach with room for one more key, a new key can be put and taken
out again. The put displaces nothing and the removal answers the value that was put. Of all that
can be read of the cache afterwards, down to the order in which all entries would leave, only the
numbers of insertions and removals have changed, and every later list of calls has the answers
that it would have had without the two. -/
theorem put_remove_restores (config : Config) (calls : List (Call κ ν)) (key : κ) (value : ν)
    (hroom : ((new config : Cache κ ν).run calls).2.size < config.capacity)
    (habsent : ((new config : Cache κ ν).run calls).2.peek? key = none) :
    let c := ((new config : Cache κ ν).run calls).2
    let added := c.put key value
    let left := added.2.remove key
    added.1 = none ∧ left.1 = some value ∧
      left.2.snapshot =
        { c.snapshot with metrics := (c.metrics.record .insertion).record .removal } ∧
      left.2.metrics.levels = c.metrics.levels ∧
      left.2.tracker.keys = c.tracker.keys ∧ left.2.tracker.levels = c.tracker.levels ∧
      ∀ later, (left.2.run later).1 = (c.run later).1 := by
  intro c added left
  rcases (Shows.new config).run View.Sound.empty calls with ⟨-, hshows, hsound⟩
  have hfresh : c.Fresh := run_fresh (fresh_new config) calls
  rcases hshows.put_remove hsound hroom habsent value with ⟨hput, hremove, hleft⟩
  have hmetrics : left.2.metrics = (c.metrics.record .insertion).record .removal :=
    hshows.metrics_put_remove hsound hfresh hroom habsent value
  have hpolicy : left.2.tracker.policy = c.tracker.policy :=
    hleft.policy_eq.trans hshows.policy_eq.symm
  have hqueue : left.2.tracker.queue = c.tracker.queue := hleft.queue_eq.trans hshows.queue_eq.symm
  refine ⟨hput, hremove, ?_, ?_, ?_, ?_, ?_⟩
  · have hvalue : left.2.peek? = c.peek? := by
      funext k
      rw [hleft.value_eq, hshows.value_eq]
    have hfrequency : left.2.frequency? = c.frequency? :=
      hleft.consistent.frequency?_congr hshows.consistent hpolicy hqueue
    rw [snapshot, snapshot, hleft.size_eq hsound, hshows.size_eq hsound, hvalue,
      hleft.drain_congr hshows hsound hsound, hleft.victim?_eq, hshows.victim?_eq, hfrequency,
      hmetrics]
  · rw [hmetrics]
    rfl
  · rw [hleft.consistent.keys_eq, hshows.consistent.keys_eq, hpolicy, hqueue]
  · exact (hleft.consistent.spread_eq hshows.consistent hpolicy hqueue).2.2
  · intro later
    exact (hleft.run hsound later).1.trans (hshows.run hsound later).1.symm

/-- Key 1 was accessed twice, so a bucket for key 2 is made in front of its bucket and dropped. -/
theorem put_remove_restores_front_bucket :
    let config : Config := ⟨3, .lfu, Nat.succ_pos 2⟩
    let calls : List (Call Nat Nat) := [.put 1 10, .get 1]
    let c := ((new config : Cache Nat Nat).run calls).2
    let left := (c.put 2 20).2.remove 2
    (c.size < config.capacity ∧ c.peek? 2 = none) ∧ left.1 = some 20 ∧
      left.2.snapshot =
        { c.snapshot with metrics := (c.metrics.record .insertion).record .removal } := by
  intro config calls c left
  rcases (Shows.new config : Shows (new config : Cache Nat Nat) _ _).run View.Sound.empty calls with
    ⟨-, hshows, hsound⟩
  have hroom : c.size < config.capacity := by
    rw [hshows.size_eq hsound]
    decide
  have habsent : c.peek? 2 = none := (hshows.value_eq 2).trans rfl
  rcases put_remove_restores config calls 2 20 hroom habsent with
    ⟨-, hremove, hsnapshot, -⟩
  exact ⟨⟨hroom, habsent⟩, hremove, hsnapshot⟩

end Cache

end CacheLab
