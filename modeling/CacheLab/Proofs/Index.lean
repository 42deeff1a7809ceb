import CacheLab.Tracker
import Mathlib.Data.List.Nodup
import Mathlib.Data.List.Perm.Basic

/-!
# CacheLab.Proofs.Index — the index of a tracker

Each tracker finds the place of a key through a hash map. `Indexed index listed`
says that the map names exactly the keys that are listed, each at the place
where it is listed, and that no key is listed twice. The place is a handle for
the orders by recency and arrival and a pair of handles for the order by
frequency; the lemmas are the same.
-/

namespace CacheLab

variable {κ ρ : Type} [DecidableEq κ] [Hashable κ]

/-- The size of a map is the number of its keys, however they are listed. -/
theorem size_eq_length {β : Type} {m : Std.HashMap κ β} {keys : List κ} (hnodup : keys.Nodup)
    (hmem : ∀ key, m.contains key = true ↔ key ∈ keys) : m.size = keys.length := by
  have hperm : m.keys.Perm keys := by
    rw [List.perm_ext_iff_of_nodup m.nodup_keys hnodup]
    intro key
    rw [Std.HashMap.mem_keys, ← Std.HashMap.contains_iff_mem]
    exact hmem key
  rw [← Std.HashMap.length_keys, hperm.length_eq]

/-- The index names exactly the listed keys, each at its place. -/
structure Indexed (index : Std.HashMap κ ρ) (listed : List (ρ × κ)) : Prop where
  keys_nodup : (listed.map (·.2)).Nodup
  getElem?_eq_some_iff : ∀ key place, index[key]? = some place ↔ (place, key) ∈ listed

namespace Indexed

variable {index : Std.HashMap κ ρ} {listed listed' : List (ρ × κ)} {key : κ} {place : ρ}

theorem empty : Indexed (∅ : Std.HashMap κ ρ) [] where
  keys_nodup := List.nodup_nil
  getElem?_eq_some_iff _ _ := by simp

theorem perm (hi : Indexed index listed) (hperm : listed.Perm listed') :
    Indexed index listed' where
  keys_nodup := (hperm.map _).nodup_iff.mp hi.keys_nodup
  getElem?_eq_some_iff key place := by rw [hi.getElem?_eq_some_iff, hperm.mem_iff]

theorem mem_of_getElem? (hi : Indexed index listed) (hget : index[key]? = some place) :
    key ∈ listed.map (·.2) :=
  List.mem_map_of_mem (f := (·.2)) ((hi.getElem?_eq_some_iff key place).mp hget)

theorem contains_iff (hi : Indexed index listed) :
    index.contains key = true ↔ key ∈ listed.map (·.2) := by
  rw [Std.HashMap.contains_eq_isSome_getElem?, Option.isSome_iff_exists]
  constructor
  · rintro ⟨place, hplace⟩
    exact hi.mem_of_getElem? hplace
  · intro hmem
    rcases List.mem_map.mp hmem with ⟨p, hp, rfl⟩
    exact ⟨p.1, (hi.getElem?_eq_some_iff _ _).mpr hp⟩

theorem getElem?_eq_none_iff (hi : Indexed index listed) :
    index[key]? = none ↔ key ∉ listed.map (·.2) := by
  rw [← hi.contains_iff, Std.HashMap.contains_eq_isSome_getElem?, Bool.not_eq_true,
    Option.isSome_eq_false_iff, Option.isNone_iff_eq_none]

theorem size_eq (hi : Indexed index listed) : index.size = listed.length := by
  rw [size_eq_length hi.keys_nodup fun _ => hi.contains_iff, List.length_map]

/-- A key is listed at one place only. -/
theorem notMem_tail (hi : Indexed index ((place, key) :: listed)) : key ∉ listed.map (·.2) :=
  (List.nodup_cons.mp hi.keys_nodup).1

/-- Writing the place of one key leaves the places of the others. -/
theorem of_insert (hnodup : (((place, key) :: listed).map (·.2)).Nodup)
    (hother : ∀ k, k ≠ key → ∀ r, index[k]? = some r ↔ (r, k) ∈ listed) :
    Indexed (index.insert key place) ((place, key) :: listed) where
  keys_nodup := hnodup
  getElem?_eq_some_iff k r := by
    rw [Std.HashMap.getElem?_insert, List.mem_cons]
    by_cases hk : key = k
    · -- the key has no older place in the list
      subst hk
      have hnot : (r, key) ∉ listed := by
        intro hmem
        exact (List.nodup_cons.mp hnodup).1 (List.mem_map_of_mem (f := (·.2)) hmem)
      simp [hnot, eq_comm]
    · have hne : ¬ k = key := fun heq => hk heq.symm
      simp [hk, hne, hother k hne]

theorem insert (hi : Indexed index listed) (hfresh : key ∉ listed.map (·.2)) (place : ρ) :
    Indexed (index.insert key place) ((place, key) :: listed) :=
  of_insert (List.nodup_cons.mpr ⟨hfresh, hi.keys_nodup⟩) fun k _ r =>
    hi.getElem?_eq_some_iff k r

/-- Moving a key to another place. -/
theorem move (hi : Indexed index ((place, key) :: listed)) (target : ρ) :
    Indexed (index.insert key target) ((target, key) :: listed) := by
  apply of_insert (by exact hi.keys_nodup)
  intro k hk r
  rw [hi.getElem?_eq_some_iff, List.mem_cons]
  simp [hk]

theorem erase (hi : Indexed index ((place, key) :: listed)) :
    Indexed (index.erase key) listed where
  keys_nodup := (List.nodup_cons.mp hi.keys_nodup).2
  getElem?_eq_some_iff k r := by
    rw [Std.HashMap.getElem?_erase]
    by_cases hk : key = k
    · -- the place that is erased was the only one
      subst hk
      have hnot : (r, key) ∉ listed :=
        fun hmem => hi.notMem_tail (List.mem_map_of_mem (f := (·.2)) hmem)
      simp [hnot]
    · have hne : ¬ k = key := fun heq => hk heq.symm
      simp [hk, hne, hi.getElem?_eq_some_iff]

end Indexed

end CacheLab
