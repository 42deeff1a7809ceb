import CacheLab.Latency
import Mathlib.Algebra.Ring.Nat
import Mathlib.Data.List.Perm.Basic
import Mathlib.Data.List.Sort

/-!
# CacheLab.Proofs.Latency — merging samplers loses nothing but order

However latencies are split among samplers and however those are merged, the result reports
what one sampler would that took in all of them.

* `Gathering` is a tree of records and merges, and `Gathering.run` is what comes of it.
* `Sampler.Holds` says that a sampler stands for a list of latencies. The empty one stands for
  none, and records and merges keep it (`Sampler.Holds.record`, `Sampler.Holds.merge`).
* `Gathering.run_cases`: by induction on the tree, a run ends with a sampler that holds all
  its latencies, or it overflows because their sum or their number is not a word.
* `Sampler.Holds.summary_eq`: as long as the reservoir has room, what is reported depends only on
  which latencies there were, since the samples are sorted for it.
-/

namespace CacheLab

/-! ## Extremes of a list -/

section Extremes

variable (f : Nat → Nat → Nat) [hassoc : Std.Associative f] [hcomm : Std.Commutative f]
  [hidem : Std.IdempotentOp f]

/-- The start of a fold may come in once more. -/
theorem absorb_foldr (start : Nat) (l : List Nat) :
    f start (l.foldr f start) = l.foldr f start := by
  induction l with
  | nil => exact hidem.idempotent start
  | cons a l ih => rw [List.foldr_cons, ← hassoc.assoc, hcomm.comm start, hassoc.assoc, ih]

/-- So the parts of a list may be folded apart. -/
theorem foldr_append_apart (start : Nat) (l l' : List Nat) :
    (l ++ l').foldr f start = f (l.foldr f start) (l'.foldr f start) := by
  calc (l ++ l').foldr f start
    _ = l.foldr f (f start (l'.foldr f start)) := by rw [List.foldr_append, absorb_foldr f]
    _ = f (l.foldr f start) (l'.foldr f start) := List.foldr_assoc

end Extremes

/-! ## What a sampler stands for -/

namespace Sampler

/-- A sampler that has taken in the given latencies. -/
structure Holds (s : Sampler) (latencies : List Nat) : Prop where
  total_eq : s.total = latencies.sum
  count_eq : s.count = latencies.length
  least_eq : s.least = latencies.foldr min (wordCount - 1)
  greatest_eq : s.greatest = latencies.foldr max 0
  /-- While the reservoir has room, it keeps everything. -/
  samples_perm : latencies.length ≤ reservoirSize → s.samples.toList.Perm latencies

/-- Latencies whose sum and number are words. -/
def Fit (latencies : List Nat) : Prop :=
  latencies.sum < wordCount ∧ latencies.length < wordCount

namespace Holds

variable {s s' : Sampler} {latencies latencies' : List Nat}

theorem empty : Holds .empty [] where
  total_eq := rfl
  count_eq := rfl
  least_eq := rfl
  greatest_eq := rfl
  samples_perm _ := List.Perm.nil

theorem areWords_iff (hs : s.Holds latencies) : s.areWords = true ↔ Fit latencies := by
  rw [areWords, Bool.and_eq_true, decide_eq_true_iff, decide_eq_true_iff, hs.total_eq, hs.count_eq]
  rfl

theorem record (hs : s.Holds latencies) (latency draw : Nat) :
    (s.record latency draw).Holds (latency :: latencies) := by
  constructor
  case total_eq =>
    show s.total + latency = _
    rw [hs.total_eq, List.sum_cons, Nat.add_comm]
  case count_eq => exact congrArg (· + 1) hs.count_eq
  case least_eq =>
    show min s.least latency = _
    rw [hs.least_eq, List.foldr_cons, Nat.min_comm]
  case greatest_eq =>
    show max s.greatest latency = _
    rw [hs.greatest_eq, List.foldr_cons, Nat.max_comm]
  case samples_perm =>
    intro hroom
    rw [List.length_cons] at hroom
    have hperm := hs.samples_perm (by omega)
    have hsize : s.samples.size < reservoirSize := by
      have hlength := hperm.length_eq
      rw [Array.length_toList] at hlength
      omega
    show (sample s.samples latency (s.count + 1) draw).toList.Perm _
    rw [sample, if_pos hsize, Array.toList_push]
    exact (List.perm_append_singleton latency _).trans (hperm.cons latency)

theorem merge (hs : s.Holds latencies) (hs' : s'.Holds latencies') (draws : Nat → Nat) :
    (s.merge s' draws).Holds (latencies ++ latencies') := by
  constructor
  case total_eq =>
    show s.total + s'.total = _
    rw [hs.total_eq, hs'.total_eq, List.sum_append]
  case count_eq =>
    show s.count + s'.count = _
    rw [hs.count_eq, hs'.count_eq, List.length_append]
  case least_eq =>
    show min s.least s'.least = _
    rw [hs.least_eq, hs'.least_eq, foldr_append_apart]
  case greatest_eq =>
    show max s.greatest s'.greatest = _
    rw [hs.greatest_eq, hs'.greatest_eq, foldr_append_apart]
  case samples_perm =>
    intro hroom
    rw [List.length_append] at hroom
    have hperm : (s.samples ++ s'.samples).toList.Perm (latencies ++ latencies') := by
      rw [Array.toList_append]
      exact (hs.samples_perm (by omega)).append (hs'.samples_perm (by omega))
    have hsize : ¬ reservoirSize < (s.samples ++ s'.samples).size := by
      have hlength := hperm.length_eq
      rw [Array.length_toList, List.length_append] at hlength
      omega
    show (pool draws s.samples s'.samples).toList.Perm _
    rw [pool, if_neg hsize]
    exact hperm

theorem record? (hs : s.Holds latencies) (latency draw : Nat)
    (hfit : Fit (latency :: latencies)) :
    s.record? latency draw = .ok (s.record latency draw) := by
  rw [Sampler.record?, if_pos ((hs.record latency draw).areWords_iff.mpr hfit)]

theorem record?_overflow (hs : s.Holds latencies) (latency draw : Nat)
    (hfit : ¬ Fit (latency :: latencies)) : s.record? latency draw = .error .addition := by
  rw [Sampler.record?, if_neg (mt (hs.record latency draw).areWords_iff.mp hfit)]

theorem merge? (hs : s.Holds latencies) (hs' : s'.Holds latencies') (draws : Nat → Nat)
    (hfit : Fit (latencies ++ latencies')) :
    s.merge? s' draws = .ok (s.merge s' draws) := by
  rw [Sampler.merge?, if_pos ((hs.merge hs' draws).areWords_iff.mpr hfit)]

theorem merge?_overflow (hs : s.Holds latencies) (hs' : s'.Holds latencies') (draws : Nat → Nat)
    (hfit : ¬ Fit (latencies ++ latencies')) : s.merge? s' draws = .error .addition := by
  rw [Sampler.merge?, if_neg (mt (hs.merge hs' draws).areWords_iff.mp hfit)]

/-- Samplers that hold the same latencies report the same numbers. -/
theorem numbers_eq (hs : s.Holds latencies) (hs' : s'.Holds latencies')
    (hperm : latencies.Perm latencies') :
    s.total = s'.total ∧ s.count = s'.count ∧ s.least = s'.least ∧ s.greatest = s'.greatest := by
  rw [hs.total_eq, hs'.total_eq, hs.count_eq, hs'.count_eq, hs.least_eq, hs'.least_eq,
    hs.greatest_eq, hs'.greatest_eq]
  exact ⟨hperm.sum_nat, hperm.length_eq, hperm.foldr_eq _, hperm.foldr_eq _⟩

end Holds

/-- The percentiles do not depend on the order of the samples, since they are sorted first. -/
theorem percentiles?_congr {s s' : Sampler} (hperm : s.samples.toList.Perm s'.samples.toList) :
    s.percentiles? = s'.percentiles? := by
  have hsorted : s.samples.toList.mergeSort (· ≤ ·) = s'.samples.toList.mergeSort (· ≤ ·) := by
    have hboth := (List.mergeSort_perm s.samples.toList (· ≤ ·)).trans
      (hperm.trans (List.mergeSort_perm s'.samples.toList (· ≤ ·)).symm)
    exact hboth.eq_of_pairwise' (List.pairwise_mergeSort' (· ≤ ·) _)
      (List.pairwise_mergeSort' (· ≤ ·) _)
  rw [percentiles?, hsorted, percentiles?]

/-- While the reservoir has room, samplers that hold the same latencies report the same. -/
theorem Holds.summary_eq {s s' : Sampler} {latencies latencies' : List Nat}
    (hs : s.Holds latencies) (hs' : s'.Holds latencies') (hperm : latencies.Perm latencies')
    (hroom : latencies.length ≤ reservoirSize) :
    s.samples.toList.Perm s'.samples.toList ∧ s.summary = s'.summary := by
  rcases hs.numbers_eq hs' hperm with ⟨htotal, hcount, hleast, hgreatest⟩
  have hroom' : latencies'.length ≤ reservoirSize := hperm.length_eq ▸ hroom
  have hsamples : s.samples.toList.Perm s'.samples.toList :=
    (hs.samples_perm hroom).trans (hperm.trans (hs'.samples_perm hroom').symm)
  constructor
  · exact hsamples
  · rw [summary, htotal, hcount, hleast, hgreatest, percentiles?_congr hsamples, summary]

end Sampler

/-! ## Trees of records and merges -/

/-- How a sampler comes about: it is new, it takes in a latency, or another one is merged
into it. Each step that needs random numbers has its own. -/
inductive Gathering where
  | new
  | record (g : Gathering) (latency draw : Nat)
  | merge (g other : Gathering) (draws : Nat → Nat)

namespace Gathering

/-- The latencies that are taken in anywhere in the tree. -/
def latencies : Gathering → List Nat
  | new => []
  | record g latency _ => latency :: g.latencies
  | merge g other _ => g.latencies ++ other.latencies

/-- The sampler that comes of it, or the overflow at the first step that has one. -/
def run : Gathering → Except Overflow Sampler
  | new => .ok .empty
  | record g latency draw => do
    let s ← g.run
    s.record? latency draw
  | merge g other draws => do
    let s ← g.run
    let s' ← other.run
    s.merge? s' draws

/-- Latencies that are too many for a part are too many for the whole. -/
theorem fit_of_append {l l' : List Nat} (hfit : Sampler.Fit (l ++ l')) :
    Sampler.Fit l ∧ Sampler.Fit l' := by
  have hsum := hfit.1
  have hlength := hfit.2
  rw [List.sum_append] at hsum
  rw [List.length_append] at hlength
  constructor
  · constructor <;> omega
  · constructor <;> omega

/-- A run ends with a sampler that holds all latencies, or it overflows since they do not fit. -/
theorem run_cases (g : Gathering) :
    (Sampler.Fit g.latencies ∧ ∃ s, g.run = .ok s ∧ s.Holds g.latencies) ∨
      (¬ Sampler.Fit g.latencies ∧ g.run = .error .addition) := by
  induction g with
  | new =>
    refine Or.inl ⟨?_, .empty, rfl, .empty⟩
    constructor <;> exact Nat.succ_pos _
  | record g latency draw ih =>
    rw [run]
    rcases ih with ⟨_, s, hrun, hs⟩ | ⟨hfit, hrun⟩
    · rw [hrun]
      by_cases hfit : Sampler.Fit (latency :: g.latencies)
      · exact Or.inl ⟨hfit, _, hs.record? latency draw hfit, hs.record latency draw⟩
      · exact Or.inr ⟨hfit, hs.record?_overflow latency draw hfit⟩
    · rw [hrun]
      exact Or.inr ⟨fun hall => hfit (fit_of_append (l := [latency]) hall).2, rfl⟩
  | merge g other draws ih ih' =>
    rw [run]
    rcases ih with ⟨_, s, hrun, hs⟩ | ⟨hfit, hrun⟩
    · rw [hrun]
      rcases ih' with ⟨_, s', hrun', hs'⟩ | ⟨hfit, hrun'⟩
      · rw [hrun']
        by_cases hfit : Sampler.Fit (g.latencies ++ other.latencies)
        · exact Or.inl ⟨hfit, _, hs.merge? hs' draws hfit, hs.merge hs' draws⟩
        · exact Or.inr ⟨hfit, hs.merge?_overflow hs' draws hfit⟩
      · rw [hrun']
        exact Or.inr ⟨fun hall => hfit (fit_of_append hall).2, rfl⟩
    · rw [hrun]
      exact Or.inr ⟨fun hall => hfit (fit_of_append hall).1, rfl⟩

/-! ## One sampler -/

/-- Takes in latencies one after another, each with its draw. -/
def recordEach (g : Gathering) (order : List (Nat × Nat)) : Gathering :=
  order.foldl (fun g (latency, draw) => g.record latency draw) g

theorem run_recordEach (g : Gathering) (order : List (Nat × Nat)) :
    (g.recordEach order).run =
      g.run >>= order.foldlM fun s (latency, draw) => s.record? latency draw := by
  induction order generalizing g with
  | nil => exact (bind_pure g.run).symm
  | cons first order ih =>
    rw [recordEach, List.foldl_cons, ← recordEach, ih, run]
    exact bind_assoc ..

theorem latencies_recordEach (g : Gathering) (order : List (Nat × Nat)) :
    (g.recordEach order).latencies.Perm (order.map (·.1) ++ g.latencies) := by
  induction order generalizing g with
  | nil => exact List.Perm.refl _
  | cons first order ih =>
    rw [recordEach, List.foldl_cons, ← recordEach]
    exact (ih _).trans List.perm_middle

/-- Which latencies fit does not depend on their order. -/
theorem fit_perm {l l' : List Nat} (hperm : l.Perm l') : Sampler.Fit l ↔ Sampler.Fit l' := by
  rw [Sampler.Fit, hperm.sum_nat, hperm.length_eq, Sampler.Fit]

/-- However latencies are split among samplers and those are merged, an addition overflows
exactly if the sum or the number of all latencies is not a word; and a list that fits into the
memory has too few latencies for their number not to be one. One sampler that takes in all
latencies, in any order, overflows in the same cases. If none does, both have the same
sum, number, least and greatest latency, and as long as the reservoir has room the same samples
but for their order, so they report the same. -/
theorem run_eq_single (g : Gathering) (order : List (Nat × Nat))
    (horder : (order.map (·.1)).Perm g.latencies) :
    let single := order.foldlM (fun s (latency, draw) => s.record? latency draw) Sampler.empty
    (g.run = .error .addition ↔
        wordCount ≤ g.latencies.sum ∨ wordCount ≤ g.latencies.length) ∧
      (g.latencies.length * 8 ≤ memoryLimit →
        (g.run = .error .addition ↔ wordCount ≤ g.latencies.sum)) ∧
      (single = .error .addition ↔ g.run = .error .addition) ∧
      (g.run ≠ .error .addition →
        ∃ s s', g.run = .ok s ∧ single = .ok s' ∧
          s.total = s'.total ∧ s.count = s'.count ∧ s.least = s'.least ∧
          s.greatest = s'.greatest ∧
          (g.latencies.length ≤ reservoirSize →
            s.samples.toList.Perm s'.samples.toList ∧ s.summary = s'.summary)) := by
  intro single
  have hsingle : (recordEach new order).run = single := run_recordEach new order
  have hlatencies : (recordEach new order).latencies.Perm g.latencies := by
    have hperm := latencies_recordEach new order
    rw [latencies, List.append_nil] at hperm
    exact hperm.trans horder
  have hoverflow : ∀ g : Gathering, g.run = .error .addition ↔ ¬ Sampler.Fit g.latencies := by
    intro g
    rcases g.run_cases with ⟨hfit, s, hrun, -⟩ | ⟨hfit, hrun⟩
    · constructor
      · intro herror
        rw [hrun] at herror
        cases herror
      · intro hnot
        exact absurd hfit hnot
    · exact ⟨fun _ => hfit, fun _ => hrun⟩
  have hnot : ¬ Sampler.Fit g.latencies ↔
      wordCount ≤ g.latencies.sum ∨ wordCount ≤ g.latencies.length := by
    rw [Sampler.Fit]
    omega
  refine ⟨(hoverflow g).trans hnot, ?_, ?_, ?_⟩
  · intro hmemory
    have hlength : g.latencies.length < wordCount := by
      rw [memoryLimit] at hmemory
      rw [wordCount]
      omega
    rw [hoverflow, hnot]
    omega
  · rw [← hsingle, hoverflow, hoverflow, fit_perm hlatencies]
  · intro hrun
    rcases g.run_cases with ⟨hfit, s, hs, hholds⟩ | ⟨-, herror⟩
    · rcases (recordEach new order).run_cases with ⟨-, s', hs', hholds'⟩ | ⟨hfit', -⟩
      · rcases hholds.numbers_eq hholds' hlatencies.symm with ⟨htotal, hcount, hleast, hgreatest⟩
        exact ⟨s, s', hs, hsingle.symm.trans hs', htotal, hcount, hleast, hgreatest,
          hholds.summary_eq hholds' hlatencies.symm⟩
      · exact absurd ((fit_perm hlatencies).mpr hfit) hfit'
    · exact absurd herror hrun

/-- Three latencies in two samplers, one of them merged with an empty one first. -/
theorem run_eq_single_three_latencies :
    let g : Gathering :=
      .merge (.record (.record .new 5 0) 7 0) (.merge .new (.record .new 3 0) fun _ => 0) fun _ => 0
    let order : List (Nat × Nat) := [(3, 1), (5, 4), (7, 1)]
    (order.map (·.1)).Perm g.latencies ∧ g.latencies.length * 8 ≤ memoryLimit ∧
      g.run ≠ .error .addition ∧ g.latencies.length ≤ reservoirSize ∧
      ∃ s s', g.run = .ok s ∧
        order.foldlM (fun s (latency, draw) => s.record? latency draw) Sampler.empty = .ok s' ∧
        s.least = s'.least ∧ s.summary = s'.summary := by
  intro g order
  have horder : (order.map (·.1)).Perm g.latencies := by decide
  rcases run_eq_single g order horder with ⟨-, hoverflow, -, hsame⟩
  have hmemory : g.latencies.length * 8 ≤ memoryLimit := by decide
  have hsum : ¬ wordCount ≤ g.latencies.sum := by decide
  have hrun : g.run ≠ .error .addition := mt (hoverflow hmemory).mp hsum
  have hroom : g.latencies.length ≤ reservoirSize := by decide
  rcases hsame hrun with ⟨s, s', hs, hs', -, -, hleast, -, hreport⟩
  exact ⟨horder, hmemory, hrun, hroom, s, s', hs, hs', hleast, (hreport hroom).2⟩

end Gathering

end CacheLab
