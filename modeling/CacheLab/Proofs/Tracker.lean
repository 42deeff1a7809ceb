import CacheLab.Proofs.Tracker.Recency
import CacheLab.Proofs.Tracker.Arrival
import CacheLab.Proofs.Tracker.Frequency

/-!
# CacheLab.Proofs.Tracker — the three orders are one queue

Whatever the policy, a tracker is a queue of keys with access counts
(`Tracker.queue`), and each of its operations is one on that queue. Under `lru`
and `fifo` all counts are the initial one. Caches are reasoned about through
these equations only, never through the arena lists behind them.
-/

namespace CacheLab.Tracker

open EvictionQueue

variable {κ : Type} [DecidableEq κ] [Hashable κ] {t : Tracker κ} {key : κ}

/-- The order and its index agree. -/
def Consistent : Tracker κ → Prop
  | lru t => t.Consistent
  | fifo t => t.Consistent
  | lfu t => t.Consistent

/-- The keys in the order in which they leave, each with its access count. -/
def queue : Tracker κ → EvictionQueue κ
  | lru t => uniform t.keys.reverse
  | fifo t => uniform t.keys
  | lfu t => t.queue

theorem consistent_new (policy : Policy) : (new policy : Tracker κ).Consistent := by
  cases policy with
  | lru => exact Recency.consistent_empty
  | fifo => exact Arrival.consistent_empty
  | lfu => exact Frequency.consistent_empty

theorem queue_new (policy : Policy) : (new policy : Tracker κ).queue = [] := by
  cases policy <;> rfl

theorem policy_new (policy : Policy) : (new policy : Tracker κ).policy = policy := by
  cases policy <;> rfl

theorem clear_eq (t : Tracker κ) : t.clear = new t.policy := by
  cases t <;> rfl

/-- The tracked keys are the queued ones. -/
theorem keys_perm (t : Tracker κ) : t.keys.Perm t.queue.keys := by
  cases t with
  | lru t =>
    show t.keys.Perm (uniform t.keys.reverse).keys
    rw [keys_uniform]
    exact (List.reverse_perm _).symm
  | fifo t =>
    show t.keys.Perm (uniform t.keys).keys
    rw [keys_uniform]
  | lfu t => exact t.keys_perm

/-- Under `lru` the keys are listed from the one that leaves last on. -/
theorem keys_of_lru (hlru : t.policy = .lru) : t.keys = t.queue.keys.reverse := by
  cases t with
  | lru t =>
    show t.keys = (uniform t.keys.reverse).keys.reverse
    rw [keys_uniform, List.reverse_reverse]
  | fifo t => cases hlru
  | lfu t => cases hlru

/-- Under `fifo` the keys are listed as they leave. -/
theorem keys_of_fifo (hfifo : t.policy = .fifo) : t.keys = t.queue.keys := by
  cases t with
  | lru t => cases hfifo
  | fifo t => exact (keys_uniform t.keys).symm
  | lfu t => cases hfifo

namespace Consistent

/-- The listed keys are told by the policy and the queue. -/
theorem keys_eq (ht : t.Consistent) : t.keys = t.queue.listedBy t.policy := by
  cases t with
  | lru t => exact keys_of_lru rfl
  | fifo t => exact keys_of_fifo rfl
  | lfu t => exact congrArg EvictionQueue.keys (Frequency.Consistent.entries_eq ht)

theorem keys_nodup (ht : t.Consistent) : t.queue.keys.Nodup := by
  rw [← t.keys_perm.nodup_iff]
  cases t with
  | lru t => exact Recency.Consistent.keys_nodup ht
  | fifo t => exact Arrival.Consistent.keys_nodup ht
  | lfu t => exact t.keys_perm.nodup_iff.mpr (Frequency.Consistent.keys_nodup ht)

theorem contains_iff (ht : t.Consistent) : t.contains key = true ↔ key ∈ t.queue.keys := by
  rw [← t.keys_perm.mem_iff]
  cases t with
  | lru t => exact Recency.Consistent.contains_iff ht
  | fifo t => exact Arrival.Consistent.contains_iff ht
  | lfu t => exact (Frequency.Consistent.contains_iff ht).trans t.keys_perm.mem_iff.symm

theorem size_eq (ht : t.Consistent) : t.size = t.queue.length := by
  have hlength := t.keys_perm.length_eq
  rw [EvictionQueue.length_keys] at hlength
  cases t with
  | lru t => exact (Recency.Consistent.size_eq ht).trans hlength
  | fifo t => exact (Arrival.Consistent.size_eq ht).trans hlength
  | lfu t => exact Frequency.Consistent.size_eq ht

theorem victim?_eq (ht : t.Consistent) : t.victim? = t.queue.keys.head? := by
  cases t with
  | lru t =>
    show t.victim? = (uniform t.keys.reverse).keys.head?
    rw [keys_uniform, List.head?_reverse, Recency.Consistent.victim?_eq ht]
  | fifo t =>
    show t.victim? = (uniform t.keys).keys.head?
    rw [keys_uniform, Arrival.Consistent.victim?_eq ht]
  | lfu t =>
    show t.victim? = t.queue.keys.head?
    rw [EvictionQueue.keys, List.head?_map, Frequency.Consistent.victim?_eq ht]

/-- The consistency check finds nothing. -/
theorem fault?_eq_none (ht : t.Consistent) : t.fault? = none := by
  cases t with
  | lru t => exact Recency.Consistent.fault?_eq_none ht
  | fifo t => exact Arrival.Consistent.fault?_eq_none ht
  | lfu t => exact Frequency.Consistent.fault?_eq_none ht

/-- Access counts are the queued ones, where accesses are counted. -/
theorem frequency?_eq (ht : t.Consistent) (key : κ) :
    t.frequency? key = if t.policy = .lfu then t.queue.lookup key else none := by
  cases t with
  | lru t => rfl
  | fifo t => rfl
  | lfu t => exact Frequency.Consistent.frequency?_eq ht key

/-- The order by frequency meets no missing bucket, node or victim. -/
theorem noDeadEnd (ht : t.Consistent) {order : Frequency κ} (heq : t = lfu order) :
    order.NoDeadEnd := by
  subst heq
  exact Frequency.Consistent.noDeadEnd ht

/-! ## Steps -/

theorem access (ht : t.Consistent) (key : κ) :
    (t.access key).Consistent ∧ (t.access key).policy = t.policy ∧
      (t.access key).queue = t.queue.access t.policy key := by
  cases t with
  | fifo t => exact ⟨ht, rfl, rfl⟩
  | lfu t =>
    rcases Frequency.Consistent.access ht key with ⟨hconsistent, hqueue⟩
    exact ⟨hconsistent, rfl, hqueue⟩
  | lru t =>
    rcases Recency.Consistent.access ht key with ⟨hconsistent, hkeys⟩
    -- the list is kept from the most recent key on, which leaves last
    refine ⟨hconsistent, rfl, ?_⟩
    show uniform (t.access key).keys.reverse = (uniform t.keys.reverse).access .lru key
    rw [hkeys]
    by_cases hmem : key ∈ t.keys
    · -- all counts are equal, so the key goes to the end of the queue
      have hlookup := lookup_uniform (List.mem_reverse.mpr hmem)
      rw [if_pos hmem, access_of_lookup rfl hlookup, without_uniform, Policy.nextCount,
        place_uniform, List.reverse_cons, List.filter_reverse]
    · have hfresh : key ∉ (uniform t.keys.reverse).keys := by
        rwa [keys_uniform, List.mem_reverse]
      rw [if_neg hmem, access_of_notMem hfresh]

/-- A tracked key is not queued twice: inserting it is an access. -/
theorem insert_of_mem (ht : t.Consistent) (hmem : key ∈ t.queue.keys) :
    t.insert key = t.access key := by
  have hkeys : key ∈ t.keys := t.keys_perm.mem_iff.mpr hmem
  cases t with
  | lru t => exact congrArg lru (Recency.Consistent.insert_of_mem ht hkeys)
  | fifo t => exact congrArg fifo (Arrival.Consistent.insert_of_mem ht hkeys)
  | lfu t => exact congrArg lfu (Frequency.Consistent.insert_of_mem ht hmem)

theorem insert (ht : t.Consistent) (hfresh : key ∉ t.queue.keys) :
    (t.insert key).Consistent ∧ (t.insert key).policy = t.policy ∧
      (t.insert key).queue = t.queue.insert key := by
  have hkeys : key ∉ t.keys := fun hmem => hfresh (t.keys_perm.mem_iff.mp hmem)
  cases t with
  | lru t =>
    rcases Recency.Consistent.insert ht hkeys with ⟨hconsistent, hinsert⟩
    refine ⟨hconsistent, rfl, ?_⟩
    show uniform (t.insert key).keys.reverse = (uniform t.keys.reverse).insert key
    rw [hinsert, EvictionQueue.insert, place_uniform, List.reverse_cons]
  | fifo t =>
    rcases Arrival.Consistent.insert ht hkeys with ⟨hconsistent, hinsert⟩
    refine ⟨hconsistent, rfl, ?_⟩
    show uniform (t.insert key).keys = (uniform t.keys).insert key
    rw [hinsert, EvictionQueue.insert, place_uniform]
  | lfu t =>
    rcases Frequency.Consistent.insert ht hfresh with ⟨hconsistent, hqueue⟩
    exact ⟨hconsistent, rfl, hqueue⟩

theorem evict (ht : t.Consistent) :
    (t.evict).1 = t.queue.keys.head? ∧ (t.evict).2.Consistent ∧ (t.evict).2.policy = t.policy ∧
      (t.evict).2.queue = t.queue.tail := by
  cases t with
  | lru t =>
    rcases Recency.Consistent.evict ht with ⟨hkey, hconsistent, hkeys⟩
    refine ⟨?_, hconsistent, rfl, ?_⟩
    · show t.evict.1 = (uniform t.keys.reverse).keys.head?
      rw [keys_uniform, List.head?_reverse, hkey]
    · show uniform t.evict.2.keys.reverse = (uniform t.keys.reverse).tail
      rw [hkeys, ← List.tail_reverse, uniform, uniform, List.map_tail]
  | fifo t =>
    rcases Arrival.Consistent.evict ht with ⟨hkey, hconsistent, hkeys⟩
    refine ⟨?_, hconsistent, rfl, ?_⟩
    · show t.evict.1 = (uniform t.keys).keys.head?
      rw [keys_uniform, hkey]
    · show uniform t.evict.2.keys = (uniform t.keys).tail
      rw [hkeys, uniform, uniform, List.map_tail]
  | lfu t =>
    rcases Frequency.Consistent.evict ht with ⟨hkey, hconsistent, hqueue⟩
    refine ⟨?_, hconsistent, rfl, hqueue⟩
    show t.evict.1 = t.queue.keys.head?
    rw [EvictionQueue.keys, List.head?_map, hkey]

theorem remove (ht : t.Consistent) (key : κ) :
    (t.remove key).1 = decide (key ∈ t.queue.keys) ∧ (t.remove key).2.Consistent ∧
      (t.remove key).2.policy = t.policy ∧ (t.remove key).2.queue = t.queue.without key := by
  have hmem : decide (key ∈ t.queue.keys) = decide (key ∈ t.keys) :=
    decide_eq_decide.mpr t.keys_perm.mem_iff.symm
  cases t with
  | lru t =>
    rcases Recency.Consistent.remove ht key with ⟨hfound, hconsistent, hkeys⟩
    refine ⟨hfound.trans hmem.symm, hconsistent, rfl, ?_⟩
    show uniform (t.remove key).2.keys.reverse = (uniform t.keys.reverse).without key
    rw [hkeys, without_uniform, List.filter_reverse]
  | fifo t =>
    rcases Arrival.Consistent.remove ht key with ⟨hfound, hconsistent, hkeys⟩
    refine ⟨hfound.trans hmem.symm, hconsistent, rfl, ?_⟩
    show uniform (t.remove key).2.keys = (uniform t.keys).without key
    rw [hkeys, without_uniform]
  | lfu t =>
    rcases Frequency.Consistent.remove ht key with ⟨hfound, hconsistent, hqueue⟩
    exact ⟨hfound, hconsistent, rfl, hqueue⟩

end Consistent

end CacheLab.Tracker
