import CacheLab.Cache.Call

/-!
# CacheLab.Proofs.Cache.Counting — which events each call counts

Notes about the eviction order and copies of the spread of the access counts
leave the counters alone, so the counters after an operation are the counters
before it with one or two events: one equation for each operation, whatever the
policy. `hits_perform` draws the number of hits from them: it grows by one
exactly with a lookup that finds its key.
-/

namespace CacheLab

/-- Whether a call looked a key up and found it. -/
def Call.isHit {κ ν : Type} : Call κ ν → Answer κ ν → Bool
  | .get _, .value value | .modify _ _, .value value => value.isSome
  | _, _ => false

namespace Cache

variable {κ ν : Type} [DecidableEq κ] [Hashable κ]

theorem core_touch (c : Cache κ ν) (key : κ) : (c.touch key).metrics.core = c.metrics.core := by
  unfold touch
  split <;> rfl

theorem core_evict (c : Cache κ ν) :
    (c.evict).2.metrics.core =
      if (c.evict).1.isSome then c.metrics.core.record .eviction else c.metrics.core := by
  unfold evict
  rcases hevict : c.tracker.evict with ⟨_ | key, tracker⟩
  · rfl
  · -- the victim is taken out of the store
    rcases hremove : c.store.remove key with ⟨_ | value, store⟩ <;> simp only [hremove] <;> rfl

theorem core_get (c : Cache κ ν) (key : κ) :
    (c.get key).2.metrics.core =
      c.metrics.core.record (if (c.get key).1.isSome then .hit else .miss) := by
  unfold get
  cases c.peek? key with
  | none => rfl
  | some value =>
    show (c.touch key).metrics.core.record .hit = c.metrics.core.record .hit
    rw [core_touch]

theorem core_modify (c : Cache κ ν) (key : κ) (f : ν → ν) :
    (c.modify key f).2.metrics.core =
      c.metrics.core.record (if (c.modify key f).1.isSome then .hit else .miss) := by
  unfold modify
  cases c.peek? key with
  | none => rfl
  | some value =>
    show (c.touch key).metrics.core.record .hit = c.metrics.core.record .hit
    rw [core_touch]

theorem core_put_of_some (c : Cache κ ν) {key : κ} {old : ν} (hold : c.peek? key = some old)
    (value : ν) : (c.put key value).2.metrics.core = c.metrics.core.record .update := by
  unfold put
  rw [hold]
  show (touch _ key).metrics.core.record .update = c.metrics.core.record .update
  rw [core_touch]

theorem core_put_of_none (c : Cache κ ν) {key : κ} (hnone : c.peek? key = none) (value : ν) :
    (c.put key value).2.metrics.core =
      ((if c.capacity ≤ c.size then c.evict else (none, c)).2.metrics.core).record .insertion := by
  unfold put
  rw [hnone]
  rfl

theorem core_remove (c : Cache κ ν) (key : κ) :
    (c.remove key).2.metrics.core =
      if (c.remove key).1.isSome then c.metrics.core.record .removal else c.metrics.core := by
  unfold remove
  cases c.peek? key <;> rfl

theorem core_pop (c : Cache κ ν) : (c.pop).2.metrics.core = (c.evict).2.metrics.core := rfl

theorem core_clear (c : Cache κ ν) : (c.clear).metrics.core = c.metrics.core.record .clear := rfl

/-! ## Hits -/

theorem hits_evict (c : Cache κ ν) : (c.evict).2.metrics.core.hits = c.metrics.core.hits := by
  rw [core_evict]
  split <;> rfl

theorem hits_put (c : Cache κ ν) (key : κ) (value : ν) :
    (c.put key value).2.metrics.core.hits = c.metrics.core.hits := by
  cases hpeek : c.peek? key with
  | some old =>
    rw [core_put_of_some c hpeek]
    rfl
  | none =>
    rw [core_put_of_none c hpeek]
    split
    · exact c.hits_evict
    · rfl

theorem hits_remove (c : Cache κ ν) (key : κ) :
    (c.remove key).2.metrics.core.hits = c.metrics.core.hits := by
  rw [core_remove]
  split <;> rfl

/-- The number of hits grows by one with each lookup that finds its key, and
with no other call. -/
theorem hits_perform (c : Cache κ ν) (call : Call κ ν) :
    (c.perform call).2.metrics.core.hits =
      c.metrics.core.hits + (call.isHit (c.perform call).1).toNat := by
  have lookup : ∀ found : Bool, (c.metrics.core.record (if found then .hit else .miss)).hits =
      c.metrics.core.hits + found.toNat := by
    intro found
    cases found <;> rfl
  cases call with
  | get key => exact (congrArg Counters.hits (c.core_get key)).trans (lookup _)
  | modify key f => exact (congrArg Counters.hits (c.core_modify key f)).trans (lookup _)
  | put key value => exact c.hits_put key value
  | remove key => exact c.hits_remove key
  | erase key => exact c.hits_remove key
  | pop => exact (congrArg Counters.hits c.core_pop).trans c.hits_evict
  | clear => exact (congrArg Counters.hits c.core_clear).trans rfl
  | contains key => rfl
  | peek key => rfl
  | victim => rfl
  | frequency key => rfl

end Cache

end CacheLab
