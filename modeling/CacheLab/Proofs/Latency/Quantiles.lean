import CacheLab.Proofs.Latency.Reservoir

/-!
# CacheLab.Proofs.Latency.Quantiles — percentiles are quantiles

A percentile is the sample at a certain place of the samples in ascending order. So there are
enough samples on either side of it, and a later place has no smaller sample.

* `IsQuantile` says that a value cuts a list at a part of its length.
* `isQuantile_of_sorted`: an item of an ascending list is a quantile of it.
* `Sampler.percentiles?_cases` reads the percentiles off the samples in ascending order.
-/

namespace CacheLab

/-- A value of a list with at least the given part of it, in thousandths, on one side of it, and at
least the rest on the other. The value itself is on both sides. -/
structure IsQuantile (l : List Nat) (perMille v : Nat) : Prop where
  mem : v ∈ l
  atMost : l.length * perMille / 1000 + 1 ≤ l.countP (· ≤ v)
  atLeast : l.length - l.length * perMille / 1000 ≤ l.countP (v ≤ ·)

/-- Order does not matter to quantiles. -/
theorem IsQuantile.perm {l l' : List Nat} {perMille v : Nat} (hl : IsQuantile l perMille v)
    (hperm : l.Perm l') : IsQuantile l' perMille v where
  mem := hperm.mem_iff.mp hl.mem
  atMost := hperm.length_eq ▸ hperm.countP_eq _ ▸ hl.atMost
  atLeast := hperm.length_eq ▸ hperm.countP_eq _ ▸ hl.atLeast

/-! ## Ascending lists -/

section Ascending

variable {l : List Nat} (hsorted : l.Pairwise (· ≤ ·)) {i j v w : Nat}

include hsorted

theorem le_of_sorted (hv : l[i]? = some v) (hw : l[j]? = some w) (hij : i ≤ j) : v ≤ w := by
  rcases List.getElem?_eq_some_iff.mp hv with ⟨hi, rfl⟩
  rcases List.getElem?_eq_some_iff.mp hw with ⟨hj, rfl⟩
  rcases Nat.eq_or_lt_of_le hij with rfl | hlt
  · exact Nat.le_refl _
  · exact List.pairwise_iff_getElem.mp hsorted i j hi hj hlt

/-- An item has all items up to its place on one side, and all items from its place on on the
other. -/
theorem isQuantile_of_sorted {perMille : Nat} (hv : l[l.length * perMille / 1000]? = some v) :
    IsQuantile l perMille v := by
  generalize hplace : l.length * perMille / 1000 = i at hv
  rcases List.getElem?_eq_some_iff.mp hv with ⟨hi, -⟩
  constructor
  case mem => exact List.mem_of_getElem? hv
  case atMost =>
    have hbefore : (l.take (i + 1)).countP (· ≤ v) = (l.take (i + 1)).length := by
      refine List.countP_eq_length.mpr fun x hx => decide_eq_true ?_
      rcases List.mem_take_iff_getElem.mp hx with ⟨k, hk, rfl⟩
      exact le_of_sorted hsorted (List.getElem?_eq_getElem _) hv (by omega)
    have hsub : (l.take (i + 1)).countP (· ≤ v) ≤ l.countP (· ≤ v) :=
      (List.take_sublist (i + 1) l).countP_le
    rw [hbefore, List.length_take] at hsub
    rw [hplace]
    omega
  case atLeast =>
    have hbehind : (l.drop i).countP (v ≤ ·) = (l.drop i).length := by
      refine List.countP_eq_length.mpr fun x hx => decide_eq_true ?_
      rcases List.mem_drop_iff_getElem.mp hx with ⟨k, hk, rfl⟩
      exact le_of_sorted hsorted hv (List.getElem?_eq_getElem _) (Nat.le_add_right i k)
    have hsub : (l.drop i).countP (v ≤ ·) ≤ l.countP (v ≤ ·) :=
      (List.drop_sublist i l).countP_le
    rw [hbehind, List.length_drop] at hsub
    rw [hplace]
    exact hsub

end Ascending

namespace Sampler

/-- The samples in ascending order. -/
def ascending (s : Sampler) : List Nat := s.samples.toList.mergeSort (· ≤ ·)

theorem ascending_perm (s : Sampler) : s.ascending.Perm s.samples.toList :=
  List.mergeSort_perm _ _

theorem sorted_ascending (s : Sampler) : s.ascending.Pairwise (· ≤ ·) :=
  List.pairwise_mergeSort' (· ≤ ·) _

/-- There are percentiles unless there are no samples, and each is the sample at its part of the
ascending order. The last place is never needed in its stead. -/
theorem percentiles?_cases (s : Sampler) :
    (s.samples.size = 0 ∧ s.percentiles? = none) ∨
      ∃ p, s.percentiles? = some p ∧
        s.ascending[s.ascending.length * 500 / 1000]? = some p.p50 ∧
        s.ascending[s.ascending.length * 900 / 1000]? = some p.p90 ∧
        s.ascending[s.ascending.length * 990 / 1000]? = some p.p99 ∧
        s.ascending[s.ascending.length * 999 / 1000]? = some p.p999 := by
  have hlength : s.ascending.length = s.samples.size := s.ascending_perm.length_eq
  have hpercentiles : s.percentiles? = (do
      let n := s.ascending.length
      let p50 ← s.ascending[min (n * 500 / 1000) (n - 1)]?
      let p90 ← s.ascending[min (n * 900 / 1000) (n - 1)]?
      let p99 ← s.ascending[min (n * 990 / 1000) (n - 1)]?
      let p999 ← s.ascending[min (n * 999 / 1000) (n - 1)]?
      return { p50, p90, p99, p999 }) := by
    rw [percentiles?, ascending]
    simp only [List.getElem?_toArray, List.size_toArray]
  rcases Nat.eq_zero_or_pos s.samples.size with hzero | hpos
  · have hnil : s.ascending = [] := List.eq_nil_of_length_eq_zero (hlength.trans hzero)
    rw [hpercentiles, hnil]
    exact Or.inl ⟨hzero, rfl⟩
  · have hplace : ∀ perMille < 1000,
        min (s.ascending.length * perMille / 1000) (s.ascending.length - 1) =
          s.ascending.length * perMille / 1000 ∧
        ∃ v, s.ascending[s.ascending.length * perMille / 1000]? = some v := by
      intro perMille hpart
      have hlt : s.ascending.length * perMille / 1000 < s.ascending.length := by
        rw [Nat.div_lt_iff_lt_mul (by decide)]
        exact Nat.mul_lt_mul_of_pos_left hpart (hlength ▸ hpos)
      exact ⟨Nat.min_eq_left (by omega), _, List.getElem?_eq_getElem hlt⟩
    rcases hplace 500 (by decide) with ⟨h50, p50, hp50⟩
    rcases hplace 900 (by decide) with ⟨h90, p90, hp90⟩
    rcases hplace 990 (by decide) with ⟨h99, p99, hp99⟩
    rcases hplace 999 (by decide) with ⟨h999, p999, hp999⟩
    refine Or.inr ⟨{ p50, p90, p99, p999 }, ?_, hp50, hp90, hp99, hp999⟩
    rw [hpercentiles]
    simp only [h50, h90, h99, h999, hp50, hp90, hp99, hp999]
    rfl

end Sampler

namespace Gathering

/-- After any records and merges, percentiles are reported exactly if there was a latency. Each is
a quantile of the samples, and they ascend from the least latency to the greatest one. -/
theorem run_quantiles (g : Gathering) (s : Sampler) (hrun : g.run = .ok s) :
    (s.summary.percentiles = none ↔ g.latencies = []) ∧
      ∀ p, s.summary.percentiles = some p →
        (IsQuantile s.samples.toList 500 p.p50 ∧ IsQuantile s.samples.toList 900 p.p90 ∧
          IsQuantile s.samples.toList 990 p.p99 ∧ IsQuantile s.samples.toList 999 p.p999) ∧
        s.summary.least ≤ p.p50 ∧ p.p50 ≤ p.p90 ∧ p.p90 ≤ p.p99 ∧ p.p99 ≤ p.p999 ∧
        p.p999 ≤ s.summary.greatest := by
  have hok : g.run ≠ .error .addition := by
    intro herror
    rw [hrun] at herror
    cases herror
  rcases g.run_sampled hok with ⟨s', hs', hholds, hsampled⟩
  cases hrun.symm.trans hs'
  have hempty : s.samples.size = 0 ↔ g.latencies = [] := by
    rw [hsampled.size_eq, ← List.length_eq_zero_iff, reservoirSize]
    omega
  show (s.percentiles? = none ↔ _) ∧ ∀ p, s.percentiles? = some p → _
  rcases s.percentiles?_cases with ⟨hzero, hnone⟩ | ⟨q, hsome, h50, h90, h99, h999⟩
  · rw [hnone]
    exact ⟨⟨fun _ => hempty.mp hzero, fun _ => rfl⟩,
      fun p hp => absurd hp.symm (Option.some_ne_none p)⟩
  · have hsorted := s.sorted_ascending
    have hquantile : ∀ perMille v,
        s.ascending[s.ascending.length * perMille / 1000]? = some v →
        IsQuantile s.samples.toList perMille v := by
      intro perMille v hv
      exact (isQuantile_of_sorted hsorted hv).perm s.ascending_perm
    have hlatency : ∀ v ∈ s.samples.toList, v ∈ g.latencies := by
      intro v hv
      exact hsampled.mem v (Array.mem_toList_iff.mp hv)
    have hmono : ∀ perMille perMille', perMille ≤ perMille' →
        s.ascending.length * perMille / 1000 ≤ s.ascending.length * perMille' / 1000 := by
      intro perMille perMille' hle
      exact Nat.div_le_div_right (Nat.mul_le_mul_left _ hle)
    have hnonempty : g.latencies ≠ [] :=
      List.ne_nil_of_mem (hlatency _ (hquantile 500 _ h50).mem)
    rw [hsome]
    refine ⟨⟨fun hnone => absurd hnone (Option.some_ne_none q),
      fun hnil => absurd hnil hnonempty⟩, ?_⟩
    intro p hp
    cases hp
    refine ⟨⟨hquantile _ _ h50, hquantile _ _ h90, hquantile _ _ h99, hquantile _ _ h999⟩,
      ?_, ?_, ?_, ?_, ?_⟩
    · -- the summary shows the least latency, since there is one
      have hcount : s.count ≠ 0 := by
        rw [hholds.count_eq]
        exact mt List.length_eq_zero_iff.mp hnonempty
      show (if s.count = 0 then 0 else s.least) ≤ _
      rw [if_neg hcount]
      exact hholds.least_le (hlatency _ (hquantile 500 _ h50).mem)
    · exact le_of_sorted hsorted h50 h90 (hmono _ _ (by decide))
    · exact le_of_sorted hsorted h90 h99 (hmono _ _ (by decide))
    · exact le_of_sorted hsorted h99 h999 (hmono _ _ (by decide))
    · exact hholds.le_greatest (hlatency _ (hquantile 999 _ h999).mem)

/-- Four latencies, two of them equal, in two samplers. -/
theorem run_quantiles_four_latencies :
    let g : Gathering :=
      .merge (.record (.record .new 9 0) 4 0) (.record (.record .new 4 0) 7 0) fun _ => 0
    ∃ s p, g.run = .ok s ∧ s.samples = #[9, 4, 4, 7] ∧ s.summary.percentiles = some p ∧
      IsQuantile [9, 4, 4, 7] 500 p.p50 ∧ IsQuantile [9, 4, 4, 7] 999 p.p999 ∧ 4 ≤ p.p50 ∧
      p.p50 ≤ p.p90 ∧ p.p90 ≤ p.p99 ∧ p.p99 ≤ p.p999 ∧ p.p999 ≤ 9 := by
  intro g
  rcases run_quantiles g _ rfl with ⟨hnone, hsome⟩
  have hlatencies : g.latencies ≠ [] := by decide
  rcases Option.ne_none_iff_exists'.mp (mt hnone.mp hlatencies) with ⟨p, hp⟩
  rcases hsome p hp with ⟨⟨h50, -, -, h999⟩, hleast, h50_90, h90_99, h99_999, hgreatest⟩
  exact ⟨_, p, rfl, rfl, hp, h50, h999, hleast, h50_90, h90_99, h99_999, hgreatest⟩

end Gathering

end CacheLab
