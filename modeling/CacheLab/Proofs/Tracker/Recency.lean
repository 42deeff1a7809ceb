import CacheLab.Proofs.Tracker.Listing

/-!
# CacheLab.Proofs.Tracker.Recency — the order by recency

Under the invariant `Recency.Consistent` each operation of the tracker is one
on the plain list `keys`, most recent first: an access or an insertion puts its
key at the front, the victim is the last key, and the consistency check finds
nothing.
-/

namespace CacheLab.Recency

variable {κ : Type} [DecidableEq κ] [Hashable κ] {t : Recency κ} {key : κ}

/-- The order is well formed and the index names its nodes. -/
def Consistent (t : Recency κ) : Prop := Listing t.order t.index

theorem consistent_empty : (empty : Recency κ).Consistent := Listing.empty

namespace Consistent

theorem keys_nodup (ht : t.Consistent) : t.keys.Nodup := Listing.keys_nodup ht

theorem contains_iff (ht : t.Consistent) : t.contains key = true ↔ key ∈ t.keys :=
  Listing.contains_iff ht

theorem size_eq (ht : t.Consistent) : t.size = t.keys.length := Listing.size_eq ht

theorem victim?_eq (ht : t.Consistent) : t.victim? = t.keys.getLast? :=
  ht.wellFormed.back?_eq

theorem access (ht : t.Consistent) (key : κ) :
    (t.access key).Consistent ∧
      (t.access key).keys = if key ∈ t.keys then key :: t.keys.filter (· ≠ key) else t.keys := by
  unfold Recency.access
  cases hget : t.index[key]? with
  | none =>
    have hmem : key ∉ t.keys := ht.getElem?_eq_none_iff.mp hget
    rw [if_neg hmem]
    exact ⟨ht, rfl⟩
  | some h =>
    have hmem : key ∈ t.keys := ht.mem_of_getElem? hget
    rw [if_pos hmem]
    exact Listing.moveToFront ht hget

/-- A tracked key is not listed twice: inserting it is an access. -/
theorem insert_of_mem (ht : t.Consistent) (hmem : key ∈ t.keys) :
    t.insert key = t.access key := by
  unfold Recency.insert Recency.access
  cases hget : t.index[key]? with
  | none => exact absurd hmem (ht.getElem?_eq_none_iff.mp hget)
  | some h => rfl

theorem insert (ht : t.Consistent) (hfresh : key ∉ t.keys) :
    (t.insert key).Consistent ∧ (t.insert key).keys = key :: t.keys := by
  have hget : t.index[key]? = none := ht.getElem?_eq_none_iff.mpr hfresh
  unfold Recency.insert
  rw [hget]
  exact Listing.pushFront ht hfresh

theorem evict (ht : t.Consistent) :
    (t.evict).1 = t.keys.getLast? ∧
      (t.evict).2.Consistent ∧ (t.evict).2.keys = t.keys.dropLast := by
  have hpopped : (t.order.popBack).1 = t.keys.getLast? :=
    t.order.popBack_fst.trans ht.victim?_eq
  unfold Recency.evict
  rcases List.eq_nil_or_concat' t.keys with hkeys | ⟨keys, key, hkeys⟩
  · -- nothing to evict
    have hnone : t.order.back? = none := by
      rw [← t.order.popBack_fst, hpopped, hkeys, List.getLast?_nil]
    rw [ArenaList.popBack_of_none _ hnone, hkeys]
    exact ⟨rfl, ht, rfl⟩
  · have hlast : t.keys.getLast? = some key := by rw [hkeys, List.getLast?_concat]
    have hpop : t.order.popBack = (some key, (t.order.popBack).2) :=
      Prod.ext (hpopped.trans hlast) rfl
    rw [hpop, hlast, hkeys, List.dropLast_concat]
    exact ⟨rfl, Listing.popBack ht hkeys⟩

theorem remove (ht : t.Consistent) (key : κ) :
    (t.remove key).1 = decide (key ∈ t.keys) ∧
      (t.remove key).2.Consistent ∧ (t.remove key).2.keys = t.keys.filter (· ≠ key) := by
  unfold Recency.remove
  cases hget : t.index[key]? with
  | none =>
    have hmem : key ∉ t.keys := ht.getElem?_eq_none_iff.mp hget
    rw [Pairs.filter_keys_of_notMem hmem]
    exact ⟨(decide_eq_false hmem).symm, ht, rfl⟩
  | some h =>
    have hmem : key ∈ t.keys := ht.mem_of_getElem? hget
    exact ⟨(decide_eq_true hmem).symm, Listing.remove ht hget⟩

/-- The consistency check finds nothing. -/
theorem fault?_eq_none (ht : t.Consistent) : t.fault? = none := by
  rw [fault?, if_neg (not_not_intro ht.length_eq), List.findSome?_eq_none_iff]
  intro key hkey
  rcases ht.get?_of_mem hkey with ⟨h, hindex, hnode⟩
  simp [hindex, hnode]

end Consistent

end CacheLab.Recency
