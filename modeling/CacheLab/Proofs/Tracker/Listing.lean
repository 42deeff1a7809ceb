import CacheLab.Proofs.ArenaList.Shape
import CacheLab.Proofs.Index
import CacheLab.Proofs.Pairs

/-!
# CacheLab.Proofs.Tracker.Listing — one arena list with its index

The orders by recency and by arrival keep their keys in one arena list beside
an index of its nodes. `Listing order index` is the invariant of such a pair:
the list is well formed and the index names exactly the listed keys, each at
its own node. Each step of the two trackers keeps it and is one step on the
plain list of keys.
-/

namespace CacheLab

open ArenaList

variable {κ : Type} [DecidableEq κ] [Hashable κ]

/-- The list is well formed and the index names its nodes. -/
structure Listing (order : ArenaList κ) (index : Std.HashMap κ Handle) : Prop where
  wellFormed : order.WellFormed
  indexed : Indexed index order.entries

namespace Listing

variable {order : ArenaList κ} {index : Std.HashMap κ Handle} {key : κ} {keys : List κ} {h : Handle}

theorem empty : Listing (ArenaList.empty : ArenaList κ) ∅ where
  wellFormed := wellFormed_empty
  indexed := Indexed.empty

theorem of_entries {es : List (Handle × κ)} (hes : order.WellFormed ∧ order.entries = es)
    (hi : Indexed index es) : Listing order index ∧ order.toList = es.map (·.2) := by
  rcases hes with ⟨hw, rfl⟩
  exact ⟨⟨hw, hi⟩, rfl⟩

theorem keys_nodup (hl : Listing order index) : order.toList.Nodup := hl.indexed.keys_nodup

theorem contains_iff (hl : Listing order index) :
    index.contains key = true ↔ key ∈ order.toList :=
  hl.indexed.contains_iff

theorem getElem?_eq_none_iff (hl : Listing order index) :
    index[key]? = none ↔ key ∉ order.toList :=
  hl.indexed.getElem?_eq_none_iff

theorem mem_of_getElem? (hl : Listing order index) (hget : index[key]? = some h) :
    key ∈ order.toList :=
  hl.indexed.mem_of_getElem? hget

theorem size_eq (hl : Listing order index) : index.size = order.toList.length := by
  rw [hl.indexed.size_eq, toList, List.length_map]

theorem length_eq (hl : Listing order index) : order.length = index.size := by
  rw [hl.wellFormed.length_eq, hl.indexed.size_eq]

/-- Each listed key is indexed at its own node. -/
theorem get?_of_mem (hl : Listing order index) (hmem : key ∈ order.toList) :
    ∃ h, index[key]? = some h ∧ order.get? h = some key := by
  rcases List.mem_map.mp hmem with ⟨p, hp, rfl⟩
  exact ⟨p.1, (hl.indexed.getElem?_eq_some_iff _ _).mpr hp, hl.wellFormed.get?_eq_some_iff.mpr hp⟩

/-- The list around the node of an indexed key. -/
theorem split (hl : Listing order index) (hget : index[key]? = some h) :
    ∃ xs ys, order.entries = xs ++ (h, key) :: ys ∧ Indexed index ((h, key) :: (xs ++ ys)) ∧
      order.toList.filter (· ≠ key) = (xs ++ ys).map (·.2) := by
  obtain ⟨xs, ys, hsplit⟩ :=
    List.append_of_mem ((hl.indexed.getElem?_eq_some_iff key h).mp hget)
  have hnodup := hl.keys_nodup
  have hindexed := hl.indexed
  have hkeys : order.toList = xs.map (·.2) ++ key :: ys.map (·.2) := by
    rw [toList, hsplit, List.map_append, List.map_cons]
  rw [hsplit] at hindexed
  rw [hkeys] at hnodup ⊢
  refine ⟨xs, ys, hsplit, hindexed.perm List.perm_middle, ?_⟩
  rw [Pairs.filter_keys_middle hnodup, List.map_append]

/-! ## Steps -/

theorem moveToFront (hl : Listing order index) (hget : index[key]? = some h) :
    Listing (order.moveToFront h).2 index ∧
      (order.moveToFront h).2.toList = key :: order.toList.filter (· ≠ key) := by
  rcases hl.split hget with ⟨xs, ys, hes, hindexed, hfilter⟩
  rw [hfilter]
  exact of_entries (hl.wellFormed.moveToFront hes) hindexed

theorem pushFront (hl : Listing order index) (hfresh : key ∉ order.toList) :
    Listing (order.pushFront key).2 (index.insert key (order.pushFront key).1) ∧
      (order.pushFront key).2.toList = key :: order.toList :=
  of_entries (hl.wellFormed.pushFront key) (hl.indexed.insert hfresh _)

theorem pushBack (hl : Listing order index) (hfresh : key ∉ order.toList) :
    Listing (order.pushBack key).2 (index.insert key (order.pushBack key).1) ∧
      (order.pushBack key).2.toList = order.toList ++ [key] := by
  have hindexed : Indexed (index.insert key (order.pushBack key).1)
      (order.entries ++ [((order.pushBack key).1, key)]) :=
    (hl.indexed.insert hfresh _).perm (List.perm_append_singleton _ _).symm
  rcases of_entries (hl.wellFormed.pushBack key) hindexed with ⟨hlisting, hkeys⟩
  refine ⟨hlisting, ?_⟩
  rw [hkeys, List.map_append, List.map_singleton, toList]

theorem popBack (hl : Listing order index) (hkeys : order.toList = keys ++ [key]) :
    Listing (order.popBack).2 (index.erase key) ∧ (order.popBack).2.toList = keys := by
  have hindexed := hl.indexed
  rw [toList] at hkeys
  rcases List.map_eq_append_iff.mp hkeys with ⟨es, ps, hes, rfl, hps⟩
  rcases List.map_eq_singleton_iff.mp hps with ⟨p, rfl, rfl⟩
  rw [hes] at hindexed
  -- the index does not depend on the order of the list
  have hmoved : Indexed index ((p.1, p.2) :: es) :=
    hindexed.perm (List.perm_append_singleton p es)
  exact of_entries (hl.wellFormed.popBack hes) hmoved.erase

theorem popFront (hl : Listing order index) (hkeys : order.toList = key :: keys) :
    Listing (order.popFront).2 (index.erase key) ∧ (order.popFront).2.toList = keys := by
  have hindexed := hl.indexed
  rw [toList] at hkeys
  rcases List.map_eq_cons_iff.mp hkeys with ⟨p, es, hes, rfl, rfl⟩
  rw [hes] at hindexed
  exact of_entries (hl.wellFormed.popFront hes) hindexed.erase

theorem remove (hl : Listing order index) (hget : index[key]? = some h) :
    Listing (order.remove h).2 (index.erase key) ∧
      (order.remove h).2.toList = order.toList.filter (· ≠ key) := by
  rcases hl.split hget with ⟨xs, ys, hes, hindexed, hfilter⟩
  rw [hfilter]
  exact of_entries (hl.wellFormed.remove hes) hindexed.erase

end Listing

end CacheLab
