import CacheLab.Proofs.Tracker.Representation
import Mathlib.Data.List.Perm.Subperm

/-!
# CacheLab.Proofs.Tracker.Soundness — what the consistency check tells

The check compares two lengths and then looks in one direction only. Under `lfu` it walks the index
and asks of each entry whether its node holds its key; under `lru` and `fifo` it walks the list and
asks of each listed key whether it is indexed at a node that holds it. The state that it is asked
about need not come from any use of a tracker: the lists are well formed (`Tracker.WellFormed`) and
the index is any map.

* Each key is indexed once, so the entries of the index lie at different nodes, and with equal
  lengths they fill the list (`Indexed.of_entries`). The check of the order by frequency is sound.
* A list may hold one key twice. Both nodes are then found to be in order through the one index
  entry of the key, and the place in the count that is left over goes to a key that no node holds.
  So the other two checks are sound for lists without repeated keys (`Indexed.of_listed`), and for
  no others: `repeated_key_passes`.
* `agrees_iff_fault?_eq_none` says exactly what an answer of the check means.
-/

namespace CacheLab

open ArenaList

variable {κ : Type} [DecidableEq κ] [Hashable κ]

/-! ## Counting -/

namespace Indexed

variable {ρ : Type} {index : Std.HashMap κ ρ} {listed : List (ρ × κ)}

/-- If each index entry is listed and the lengths are equal, the index lists nothing else. -/
theorem of_entries (hlisted : ∀ key place, index[key]? = some place → (place, key) ∈ listed)
    (hlength : listed.length = index.size) : Indexed index listed := by
  have hkeys : (index.toList.map Prod.swap).map (·.2) = index.keys := by
    rw [List.map_map]
    exact Std.HashMap.map_fst_toList_eq_keys
  have hnodup : ((index.toList.map Prod.swap).map (·.2)).Nodup := by
    rw [hkeys]
    exact Std.HashMap.nodup_keys
  have hmem : ∀ key place,
      (place, key) ∈ index.toList.map Prod.swap ↔ index[key]? = some place := by
    intro key place
    rw [← Std.HashMap.mem_toList_iff_getElem?_eq_some, List.mem_map]
    constructor
    · rintro ⟨p, hp, heq⟩
      rw [← Prod.swap_swap p, heq] at hp
      exact hp
    · intro hp
      exact ⟨(key, place), hp, rfl⟩
  have hsubset : index.toList.map Prod.swap ⊆ listed := by
    intro p hp
    exact hlisted p.2 p.1 ((hmem p.2 p.1).mp hp)
  have hperm : (index.toList.map Prod.swap).Perm listed := by
    apply (List.subperm_of_subset (List.Nodup.of_map _ hnodup) hsubset).perm_of_length_le
    rw [hlength, List.length_map, Std.HashMap.length_toList]
  constructor
  · exact (hperm.map _).nodup_iff.mp hnodup
  · intro key place
    rw [← hmem, hperm.mem_iff]

/-- If each listed key is indexed where it is listed and no key is listed twice, equal lengths
leave no room for another index entry. -/
theorem of_listed
    (hindexed : ∀ key ∈ listed.map (·.2), ∃ place, index[key]? = some place ∧ (place, key) ∈ listed)
    (hnodup : (listed.map (·.2)).Nodup) (hlength : listed.length = index.size) :
    Indexed index listed := by
  have hsubset : listed.map (·.2) ⊆ index.keys := by
    intro key hkey
    rcases hindexed key hkey with ⟨place, hplace, -⟩
    rw [Std.HashMap.mem_keys, Std.HashMap.mem_iff_isSome_getElem?, hplace]
    rfl
  have hperm : (listed.map (·.2)).Perm index.keys := by
    apply (List.subperm_of_subset hnodup hsubset).perm_of_length_le
    rw [Std.HashMap.length_keys, List.length_map, hlength]
  apply of_entries _ hlength
  intro key place hplace
  have hkey : key ∈ listed.map (·.2) := by
    rw [hperm.mem_iff, Std.HashMap.mem_keys, Std.HashMap.mem_iff_isSome_getElem?, hplace]
    rfl
  rcases hindexed key hkey with ⟨place', hplace', hlisted⟩
  obtain rfl : place = place' := Option.some.inj (hplace.symm.trans hplace')
  exact hlisted

end Indexed

/-- A catalogue has as many entries as there are keys. -/
theorem Catalogue.size_eq {ρ : Type} {index : Std.HashMap κ ρ} {keys : List κ}
    {keyAt? : ρ → Option κ} (hc : Catalogue index keys keyAt?) : index.size = keys.length :=
  size_eq_length hc.keys_nodup hc.contains_iff

/-! ## One list with its index -/

/-- A check that compares two lengths and then looks at each entry of a list. -/
theorem lengthsThenEach_eq_none_iff {α : Type} {n m : Nat} {fault : Inconsistency} {l : List α}
    {f : α → Option Inconsistency} :
    (if n ≠ m then some fault else l.findSome? f) = none ↔ n = m ∧ ∀ a ∈ l, f a = none := by
  by_cases hlength : n = m
  · rw [if_neg (not_not_intro hlength), List.findSome?_eq_none_iff, and_iff_right hlength]
  · rw [if_pos hlength]
    constructor
    · intro hfault
      cases hfault
    · rintro ⟨hequal, -⟩
      exact absurd hequal hlength

/-- What the check of one list finds out: the lengths are equal, and each listed key is indexed
at a node that holds it. -/
structure Checked (order : ArenaList κ) (index : Std.HashMap κ Handle) : Prop where
  length_eq : order.length = index.size
  at_node : ∀ key ∈ order.toList, ∃ h, index[key]? = some h ∧ order.get? h = some key

theorem Recency.fault?_eq_none_iff (t : Recency κ) : t.fault? = none ↔ Checked t.order t.index := by
  unfold fault?
  rw [lengthsThenEach_eq_none_iff]
  constructor
  · rintro ⟨hlength, hnone⟩
    refine ⟨hlength, ?_⟩
    intro key hmem
    have hkey := hnone key hmem
    cases hplace : t.index[key]? with
    | none => simp [hplace] at hkey
    | some h => exact ⟨h, rfl, by simpa [hplace] using hkey⟩
  · intro hchecked
    refine ⟨hchecked.length_eq, ?_⟩
    intro key hmem
    rcases hchecked.at_node key hmem with ⟨h, hplace, hnode⟩
    simp [hplace, hnode]

theorem Arrival.fault?_eq_none_iff (t : Arrival κ) : t.fault? = none ↔ Checked t.queue t.index := by
  unfold fault?
  rw [lengthsThenEach_eq_none_iff]
  constructor
  · rintro ⟨hlength, hnone⟩
    refine ⟨hlength, ?_⟩
    intro key hmem
    rw [← Option.bind_eq_some_iff]
    simpa using hnone key hmem
  · intro hchecked
    refine ⟨hchecked.length_eq, ?_⟩
    intro key hmem
    have hnode := Option.bind_eq_some_iff.mpr (hchecked.at_node key hmem)
    simp [hnode]

namespace Checked

variable {order : ArenaList κ} {index : Std.HashMap κ Handle}

theorem contains (hc : Checked order index) {key : κ} (hkey : key ∈ order.toList) :
    index.contains key = true := by
  rcases hc.at_node key hkey with ⟨h, hindex, -⟩
  rw [Std.HashMap.contains_eq_isSome_getElem?, hindex]
  rfl

theorem size_eq (hc : Checked order index) (hw : order.WellFormed) :
    index.size = order.toList.length := by
  rw [← hc.length_eq, hw.length_eq, toList, List.length_map]

/-- Without repeated keys the index is an exact catalogue. -/
theorem catalogue (hc : Checked order index) (hw : order.WellFormed) (hnodup : order.toList.Nodup) :
    Catalogue index order.toList order.get? := by
  have hindexed : Indexed index order.entries := by
    apply Indexed.of_listed _ hnodup
    · rw [← hw.length_eq]
      exact hc.length_eq
    · intro key hkey
      rcases hc.at_node key hkey with ⟨h, hindex, hnode⟩
      exact ⟨h, hindex, hw.get?_eq_some_iff.mp hnode⟩
  exact Listing.catalogue ⟨hw, hindexed⟩

/-- An exact catalogue passes the check. -/
theorem of_catalogue (hw : order.WellFormed) (hc : Catalogue index order.toList order.get?) :
    Checked order index := by
  constructor
  · rw [hw.length_eq, hc.size_eq, toList, List.length_map]
  · intro key hkey
    have hcontains := (hc.contains_iff key).mpr hkey
    rw [Std.HashMap.contains_eq_isSome_getElem?, Option.isSome_iff_exists] at hcontains
    rcases hcontains with ⟨h, hindex⟩
    exact ⟨h, hindex, (hc.getElem?_eq_some_iff key h).mp hindex⟩

theorem catalogue_iff (hw : order.WellFormed) :
    Catalogue index order.toList order.get? ↔ Checked order index ∧ order.toList.Nodup := by
  constructor
  · intro hc
    exact ⟨of_catalogue hw hc, hc.keys_nodup⟩
  · rintro ⟨hc, hnodup⟩
    exact hc.catalogue hw hnodup

/-- What follows for a check that finds nothing exactly in this case. -/
theorem verdict {fault : Option Inconsistency} (hfault : fault = none ↔ Checked order index)
    (hw : order.WellFormed) :
    (Catalogue index order.toList order.get? ↔ fault = none ∧ order.toList.Nodup) ∧
      (fault = none → index.size = order.toList.length ∧
        ∀ key ∈ order.toList, index.contains key = true) := by
  rw [hfault]
  constructor
  · exact catalogue_iff hw
  · intro hc
    refine ⟨hc.size_eq hw, ?_⟩
    intro key hkey
    exact hc.contains hkey

end Checked

/-! ## Buckets with their index -/

namespace Frequency

omit [DecidableEq κ] [Hashable κ] in
/-- Buckets without a fault are not empty, and their counts ascend from the one before. -/
theorem of_bucketFault?_eq_none {buckets : List (Bucket κ)} {previous : Option Nat}
    (hfault : bucketFault? previous buckets = none) :
    (∀ b ∈ buckets, b.keys.isEmpty = false) ∧
      (∀ n ∈ previous, ∀ b ∈ buckets, n < b.frequency) ∧
      buckets.Pairwise fun a b => a.frequency < b.frequency := by
  induction buckets generalizing previous with
  | nil => exact ⟨List.forall_mem_nil _, fun _ _ => List.forall_mem_nil _, List.Pairwise.nil⟩
  | cons b buckets ih =>
    rw [bucketFault?] at hfault
    split at hfault
    · cases hfault
    · rename_i hempty
      split at hfault
      · cases hfault
      · rename_i horder
        rcases ih hfault with ⟨hoccupied, hbehind, hascending⟩
        have hlater : ∀ c ∈ buckets, b.frequency < c.frequency := hbehind b.frequency rfl
        refine ⟨List.forall_mem_cons.mpr ⟨Bool.eq_false_iff.mpr hempty, hoccupied⟩, ?_,
          List.pairwise_cons.mpr ⟨hlater, hascending⟩⟩
        -- the count before is below this one, and this one is below all that follow
        intro n hn
        obtain rfl : previous = some n := hn
        have hlt : n < b.frequency := by simpa using horder
        refine List.forall_mem_cons.mpr ⟨hlt, ?_⟩
        intro c hc
        exact Nat.lt_trans hlt (hlater c hc)

variable {t : Frequency κ}

/-- What the check of the buckets finds out: no bucket is empty, the counts ascend, there are as
many listed keys as index entries, and each entry leads to its key. -/
theorem fault?_eq_none_iff (t : Frequency κ) : t.fault? = none ↔
    bucketFault? none t.buckets.toList = none ∧ t.listed = t.index.size ∧
      ∀ key position, t.index[key]? = some position → t.keyAt? position = some key := by
  unfold fault?
  cases bucketFault? none t.buckets.toList with
  | some fault => simp
  | none =>
    rw [lengthsThenEach_eq_none_iff, eq_self_iff_true, true_and]
    apply and_congr_right
    intro _
    constructor
    · intro hnone key position hget
      have hentry := hnone (key, position) (Std.HashMap.mem_toList_iff_getElem?_eq_some.mpr hget)
      rw [keyAt?]
      cases hbucket : t.buckets.get? position.bucket with
      | none => simp [hbucket] at hentry
      | some bucket => simpa [hbucket] using hentry
    · rintro hentries ⟨key, position⟩ hmem
      have hkey := hentries key position (Std.HashMap.mem_toList_iff_getElem?_eq_some.mp hmem)
      rcases Option.bind_eq_some_iff.mp hkey with ⟨bucket, hbucket, hslot⟩
      simp [hbucket, hslot]

/-- The lists of the buckets are well formed, whatever the index is. -/
structure WellFormed (t : Frequency κ) : Prop where
  buckets : t.buckets.WellFormed
  keys : ∀ b ∈ t.buckets.toList, b.keys.WellFormed

namespace WellFormed

theorem rungs (hw : t.WellFormed) : ∀ rung ∈ t.buckets.entries, rung.2.keys.WellFormed := by
  intro rung hrung
  exact hw.keys rung.2 (List.mem_map_of_mem hrung)

theorem listed_eq (hw : t.WellFormed) : t.listed = (Rungs.positions t.buckets.entries).length := by
  rw [listed, toList, foldl_length_eq hw.rungs, Nat.zero_add]

theorem isEmpty_iff (hw : t.WellFormed) {b : Bucket κ} (hb : b ∈ t.buckets.toList) :
    b.keys.isEmpty = false ↔ b.keys.toList ≠ [] := by
  rw [← Bool.not_eq_true, (hw.keys b hb).isEmpty_iff, toList, Ne, List.map_eq_nil_iff]

end WellFormed

/-- The index is an exact catalogue of the keys, no bucket is empty, and the counts ascend. -/
structure Agrees (t : Frequency κ) : Prop where
  catalogue : Catalogue t.index t.keys t.keyAt?
  occupied : ∀ b ∈ t.buckets.toList, b.keys.toList ≠ []
  ascending : t.buckets.toList.Pairwise fun a b => a.frequency < b.frequency

theorem agrees_iff (hw : t.WellFormed) : t.Agrees ↔ t.fault? = none := by
  rw [fault?_eq_none_iff, hw.listed_eq]
  constructor
  · intro ha
    refine ⟨?_, ?_, ?_⟩
    · apply bucketFault?_eq_none
      · intro b hb
        exact (hw.isEmpty_iff hb).mpr (ha.occupied b hb)
      · intro n hn
        cases hn
      · exact List.pairwise_map.mpr ha.ascending
    · have hlength := (t.keys_perm.trans (Rungs.keys_perm _)).length_eq
      rw [List.length_map] at hlength
      rw [ha.catalogue.size_eq, hlength]
    · intro key position hentry
      exact (ha.catalogue.getElem?_eq_some_iff key position).mp hentry
  · rintro ⟨hbuckets, hlength, hentries⟩
    rcases of_bucketFault?_eq_none hbuckets with ⟨hoccupied, -, hascending⟩
    have hindexed : Indexed t.index (Rungs.positions t.buckets.entries) := by
      apply Indexed.of_entries _ hlength
      intro key position hentry
      exact (keyAt?_eq_some_iff hw.buckets hw.rungs key position).mp (hentries key position hentry)
    constructor
    · exact catalogue_of_indexed hw.buckets hw.rungs hindexed
    · intro b hb
      exact (hw.isEmpty_iff hb).mp (hoccupied b hb)
    · exact hascending

end Frequency

/-! ## All trackers -/

namespace Tracker

/-- The lists are well formed, whatever the index is. -/
def WellFormed : Tracker κ → Prop
  | lru t => t.order.WellFormed
  | fifo t => t.queue.WellFormed
  | lfu t => t.WellFormed

/-- No key is listed twice, the index has exactly the listed keys, and each of its entries names
the live node that holds its key; under `lfu` no bucket is empty besides, and the counts ascend. -/
def Agrees : Tracker κ → Prop
  | lru t => Catalogue t.index t.keys t.order.get?
  | fifo t => Catalogue t.index t.keys t.queue.get?
  | lfu t => t.Agrees

/-- The lists of a tracker in use are well formed. -/
theorem Consistent.wellFormed {t : Tracker κ} (ht : t.Consistent) : t.WellFormed := by
  cases t with
  | lru t => exact Listing.wellFormed ht
  | fifo t => exact Listing.wellFormed ht
  | lfu t =>
    have hladder := (Frequency.Consistent.layout ht).ladder
    rcases hladder.shape with ⟨vacant, hshape⟩
    refine ⟨hshape.wellFormed, ?_⟩
    intro b hb
    rcases List.mem_map.mp hb with ⟨rung, hrung, rfl⟩
    exact hladder.keys_wellFormed rung hrung

/-- What it means that the check finds no fault in a tracker whose lists are well formed and whose
index is any map. Under `lfu` the lists and the index agree. Under `lru` and `fifo` each listed key
is indexed at a node that holds it and the lengths are equal, and the list and the index agree
exactly if no key is listed twice. -/
theorem agrees_iff_fault?_eq_none (t : Tracker κ) (hw : t.WellFormed) :
    (t.policy = .lfu → (t.Agrees ↔ t.fault? = none)) ∧
      (t.Agrees ↔ t.fault? = none ∧ t.keys.Nodup) ∧
      (t.fault? = none → t.size = t.keys.length ∧ ∀ key ∈ t.keys, t.contains key = true) := by
  cases t with
  | lru t =>
    -- the first part is about `lfu` only
    exact ⟨nofun, Checked.verdict t.fault?_eq_none_iff hw⟩
  | fifo t => exact ⟨nofun, Checked.verdict t.fault?_eq_none_iff hw⟩
  | lfu t =>
    have hiff : (lfu t).Agrees ↔ (lfu t).fault? = none := Frequency.agrees_iff hw
    rw [← hiff]
    refine ⟨fun _ => Iff.rfl, ?_, ?_⟩
    · constructor
      · intro ha
        exact ⟨ha, (Frequency.Agrees.catalogue ha).keys_nodup⟩
      · intro ha
        exact ha.1
    · intro ha
      have hcatalogue := Frequency.Agrees.catalogue ha
      refine ⟨hcatalogue.size_eq, ?_⟩
      intro key hkey
      exact (hcatalogue.contains_iff key).mpr hkey

/-- Two keys, one of them accessed again: no fault is found, and the lists and the index agree. -/
theorem agrees_iff_fault?_eq_none_two_buckets :
    let t : Tracker Nat := (new .lfu).steps [.insert 1, .insert 2, .access 1]
    t.WellFormed ∧ t.policy = .lfu ∧ t.fault? = none ∧ t.Agrees ∧ t.size = t.keys.length := by
  intro t
  rcases (consistent_new .lfu).steps [Step.insert 1, .insert 2, .access 1] with
    ⟨hconsistent, hpolicy⟩
  have hw : t.WellFormed := hconsistent.wellFormed
  have hfault : t.fault? = none := hconsistent.fault?_eq_none
  rcases agrees_iff_fault?_eq_none t hw with ⟨hlfu, -, hlisted⟩
  exact ⟨hw, hpolicy, hfault, (hlfu hpolicy).mpr hfault, (hlisted hfault).1⟩

/-- The list of key 1 twice, with an index of keys 1 and 2, has no fault under `lru` or `fifo`. So
the check passes a repeated key, and an indexed key that is not listed. -/
theorem repeated_key_passes :
    let order : ArenaList Nat := ((empty.pushBack 1).2.pushBack 1).2
    let index : Std.HashMap Nat Handle := ((∅ : Std.HashMap Nat Handle).insert 1 ⟨0⟩).insert 2 ⟨0⟩
    order.WellFormed ∧ order.toList = [1, 1] ∧ index.contains 2 = true ∧
      ((lru ⟨order, index⟩).fault? = none ∧ ¬ (lru ⟨order, index⟩).Agrees) ∧
      ((fifo ⟨order, index⟩).fault? = none ∧ ¬ (fifo ⟨order, index⟩).Agrees) := by
  intro order index
  have hwellFormed : order.WellFormed := ((wellFormed_empty.pushBack 1).1.pushBack 1).1
  have hkeys : order.toList = [1, 1] := by decide
  have hsize : index.size = 2 := by simp [index, Std.HashMap.size_insert]
  have hplace : index[1]? = some ⟨0⟩ := by
    simp only [index, Std.HashMap.getElem?_insert]
    decide
  have hchecked : Checked order index := by
    constructor
    · rw [hsize]
      decide
    · -- the one key of the list is indexed at its first node
      intro key hkey
      rw [hkeys] at hkey
      obtain rfl : key = 1 := by simpa using hkey
      exact ⟨⟨0⟩, hplace, by decide⟩
  have hrepeated : ¬ Catalogue index order.toList order.get? := by
    intro hcatalogue
    have hnodup := hcatalogue.keys_nodup
    rw [hkeys] at hnodup
    exact absurd hnodup (by decide)
  refine ⟨hwellFormed, hkeys, by simp [index], ⟨?_, hrepeated⟩, ⟨?_, hrepeated⟩⟩
  · exact (Recency.fault?_eq_none_iff ⟨order, index⟩).mpr hchecked
  · exact (Arrival.fault?_eq_none_iff ⟨order, index⟩).mpr hchecked

end Tracker

end CacheLab
