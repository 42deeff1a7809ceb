import Mathlib.Data.List.Nodup

/-!
# CacheLab.Proofs.Pairs — lists of pairs with distinct keys

Lists of pairs stand for finite maps with an order. With distinct keys, a
pair is found by `lookup` exactly if it is listed, and taking a key out leaves
what stands before and behind its pair.
-/

namespace CacheLab.Pairs

variable {κ β : Type} [DecidableEq κ] {ps xs ys : List (κ × β)} {key : κ} {value : β}

theorem lookup_eq_some_iff_mem (hnodup : (ps.map (·.1)).Nodup) :
    ps.lookup key = some value ↔ (key, value) ∈ ps := by
  induction ps with
  | nil => simp
  | cons p ps ih =>
    rcases p with ⟨k, v⟩
    rcases List.nodup_cons.mp hnodup with ⟨hfresh, hnodup⟩
    rw [List.lookup_cons, List.mem_cons]
    by_cases hkey : key = k
    · -- a later pair of this key would be a second one
      subst hkey
      have hnot : (key, value) ∉ ps := fun hmem => hfresh (List.mem_map_of_mem (f := (·.1)) hmem)
      simp [hnot, eq_comm]
    · have hbeq : (key == k) = false := by simpa using hkey
      simp [hbeq, hkey, ih hnodup]

theorem mem_of_lookup_eq_some (hlookup : ps.lookup key = some value) : (key, value) ∈ ps := by
  rcases List.lookup_eq_some_iff.mp hlookup with ⟨xs, ys, rfl, -⟩
  simp

theorem lookup_eq_none_iff_notMem : ps.lookup key = none ↔ key ∉ ps.map (·.1) := by
  rw [List.lookup_eq_none_iff, List.mem_map]
  constructor
  · rintro h ⟨p, hp, rfl⟩
    simpa using h p hp
  · intro h p hp
    have hne : ¬ key = p.1 := fun heq => h ⟨p, hp, heq.symm⟩
    simpa using hne

theorem filter_of_notMem (hfresh : key ∉ ps.map (·.1)) : ps.filter (·.1 ≠ key) = ps := by
  rw [List.filter_eq_self]
  intro p hp
  have hne : ¬ p.1 = key := by
    rintro rfl
    exact hfresh (List.mem_map_of_mem hp)
  simpa using hne

/-- Taking a key out leaves what stands before and behind its pair. -/
theorem filter_middle (hfresh : key ∉ (xs ++ ys).map (·.1)) :
    (xs ++ (key, value) :: ys).filter (·.1 ≠ key) = xs ++ ys := by
  rw [List.map_append] at hfresh
  have hx : key ∉ xs.map (·.1) := fun hmem => hfresh (List.mem_append_left _ hmem)
  have hy : key ∉ ys.map (·.1) := fun hmem => hfresh (List.mem_append_right _ hmem)
  rw [List.filter_append, List.filter_cons_of_neg (by simp), filter_of_notMem hx,
    filter_of_notMem hy]

/-- Taking a key out leaves the values of the other keys. -/
theorem lookup_filter (k : κ) :
    (ps.filter (·.1 ≠ key)).lookup k = if k = key then none else ps.lookup k := by
  induction ps with
  | nil => simp
  | cons p ps ih =>
    by_cases hp : p.1 = key
    · rw [List.filter_cons_of_neg (by simpa using hp), ih, List.lookup_cons]
      by_cases hk : k = key
      · rw [if_pos hk, if_pos hk]
      · have hbeq : (k == p.1) = false := by simpa [hp] using hk
        rw [if_neg hk, if_neg hk, hbeq]
    · rw [List.filter_cons_of_pos (by simpa using hp), List.lookup_cons, List.lookup_cons, ih]
      by_cases hk : k = key
      · have hbeq : (k == p.1) = false := by
          rw [hk]
          simpa using Ne.symm hp
        rw [if_pos hk, hbeq, if_pos hk]
      · rw [if_neg hk, if_neg hk]

/-- Looking up all keys finds all values. -/
theorem filterMap_lookup (hnodup : (ps.map (·.1)).Nodup) :
    (ps.map (·.1)).filterMap (ps.lookup ·) = ps.map (·.2) := by
  rw [List.filterMap_map, ← List.filterMap_eq_map]
  apply List.filterMap_congr
  intro p hp
  exact (lookup_eq_some_iff_mem hnodup).mpr hp

/-! ## Lists of keys -/

theorem filter_keys_of_notMem {ks : List κ} (hfresh : key ∉ ks) : ks.filter (· ≠ key) = ks := by
  rw [List.filter_eq_self]
  intro k hk
  have hne : ¬ k = key := by
    rintro rfl
    exact hfresh hk
  simpa using hne

/-- Taking a key out of a list of distinct keys leaves what stands before and behind it. -/
theorem filter_keys_middle {ks ls : List κ} (hnodup : (ks ++ key :: ls).Nodup) :
    (ks ++ key :: ls).filter (· ≠ key) = ks ++ ls := by
  rw [List.nodup_middle, List.nodup_cons] at hnodup
  have hsame := filter_keys_of_notMem hnodup.1
  rw [List.filter_append] at hsame ⊢
  rw [List.filter_cons_of_neg (by simp), hsame]

end CacheLab.Pairs
