import CacheLab.Proofs.Tracker.Listing

/-!
# CacheLab.Proofs.Tracker.Arrival — the order by arrival

Under the invariant `Arrival.Consistent` each operation of the tracker is one
on the plain list `keys`, oldest first: a new key joins at the end, a key that
already stands in the queue stays where it is, the victim is the first key, and
the consistency check finds nothing.
-/

namespace CacheLab.Arrival

variable {κ : Type} [DecidableEq κ] [Hashable κ] {t : Arrival κ} {key : κ}

/-- The queue is well formed and the index names its nodes. -/
def Consistent (t : Arrival κ) : Prop := Listing t.queue t.index

theorem consistent_empty : (empty : Arrival κ).Consistent := Listing.empty

namespace Consistent

theorem keys_nodup (ht : t.Consistent) : t.keys.Nodup := Listing.keys_nodup ht

theorem contains_iff (ht : t.Consistent) : t.contains key = true ↔ key ∈ t.keys :=
  Listing.contains_iff ht

theorem size_eq (ht : t.Consistent) : t.size = t.keys.length := Listing.size_eq ht

theorem victim?_eq (ht : t.Consistent) : t.victim? = t.keys.head? :=
  ht.wellFormed.front?_eq

/-- A key keeps its place when it is inserted again. -/
theorem insert_of_mem (ht : t.Consistent) (hmem : key ∈ t.keys) : t.insert key = t := by
  rw [Arrival.insert, if_pos (Listing.contains_iff ht |>.mpr hmem)]

theorem insert (ht : t.Consistent) (hfresh : key ∉ t.keys) :
    (t.insert key).Consistent ∧ (t.insert key).keys = t.keys ++ [key] := by
  have hindex : ¬ t.index.contains key = true := by
    rw [Listing.contains_iff ht]
    exact hfresh
  rw [Arrival.insert, if_neg hindex]
  exact Listing.pushBack ht hfresh

theorem evict (ht : t.Consistent) :
    (t.evict).1 = t.keys.head? ∧ (t.evict).2.Consistent ∧ (t.evict).2.keys = t.keys.tail := by
  have hpopped : (t.queue.popFront).1 = t.keys.head? :=
    t.queue.popFront_fst.trans ht.victim?_eq
  unfold Arrival.evict
  cases hkeys : t.keys with
  | nil =>
    have hnone : t.queue.front? = none := by
      rw [← t.queue.popFront_fst, hpopped, hkeys, List.head?_nil]
    rw [ArenaList.popFront_of_none _ hnone]
    exact ⟨rfl, ht, hkeys⟩
  | cons key keys =>
    rw [hkeys, List.head?_cons] at hpopped
    have hpop : t.queue.popFront = (some key, (t.queue.popFront).2) := Prod.ext hpopped rfl
    rw [hpop]
    exact ⟨rfl, Listing.popFront ht hkeys⟩

theorem remove (ht : t.Consistent) (key : κ) :
    (t.remove key).1 = decide (key ∈ t.keys) ∧
      (t.remove key).2.Consistent ∧ (t.remove key).2.keys = t.keys.filter (· ≠ key) := by
  unfold Arrival.remove
  cases hget : t.index[key]? with
  | none =>
    have hmem : key ∉ t.keys := ht.getElem?_eq_none_iff.mp hget
    rw [Pairs.filter_keys_of_notMem hmem]
    exact ⟨(decide_eq_false hmem).symm, ht, rfl⟩
  | some h =>
    have hmem : key ∈ t.keys := ht.mem_of_getElem? hget
    exact ⟨(decide_eq_true hmem).symm, Listing.remove ht hget⟩

/-- The consistency check finds nothing. -/
theorem fault?_eq_none (ht : t.Consistent) : t.fault? = none := by
  rw [fault?, if_neg (not_not_intro ht.length_eq), List.findSome?_eq_none_iff]
  intro key hkey
  rcases ht.get?_of_mem hkey with ⟨h, hindex, hnode⟩
  simp [hindex, hnode]

end Consistent

end CacheLab.Arrival
