import Std.Data.TreeMap.Lemmas
import CacheLab.Simulation.Results

/-!
# CacheLab.Proofs.Simulation.Results — what results hold

Runs are ordered by algorithm and mode, and no two runs are level. So results
are a map from runs to scores: to record something for a planned run changes the
score of that run alone (`getElem?_update`), and what is recorded for another run
is dropped (`isSome_getElem?_update`).
-/

namespace CacheLab

theorem Algorithm.rank_inj {a b : Algorithm} (h : a.rank = b.rank) : a = b := by
  cases a <;> cases b <;> first | rfl | cases h

theorem Mode.rank_inj {a b : Mode} (h : a.rank = b.rank) : a = b := by
  cases a <;> cases b <;> first | rfl | cases h

namespace Run

instance : Std.TransOrd Run :=
  inferInstanceAs <| Std.TransCmp <|
    compareLex (compareOn fun r : Run => r.algorithm.rank) (compareOn fun r : Run => r.mode.rank)

instance : Std.LawfulEqOrd Run where
  eq_of_compare {a b} h := by
    rcases a with ⟨algorithm, mode⟩
    rcases b with ⟨algorithm', mode'⟩
    have hranks : (compare algorithm.rank algorithm'.rank).then
        (compare mode.rank mode'.rank) = .eq := h
    rw [Ordering.then_eq_eq, Nat.compare_eq_eq, Nat.compare_eq_eq] at hranks
    rw [Algorithm.rank_inj hranks.1, Mode.rank_inj hranks.2]

end Run

namespace Results

theorem getElem?_update (r : Results) (run run' : Run) (f : Score → Score) :
    (r.update run f)[run']? = if run = run' then r[run]?.map f else r[run']? := by
  rw [update, Std.TreeMap.getElem?_modify]
  simp only [Std.LawfulEqCmp.compare_eq_iff_eq]

theorem isSome_getElem?_update (r : Results) (run run' : Run) (f : Score → Score) :
    (r.update run f)[run']?.isSome = r[run']?.isSome := by
  rw [getElem?_update]
  by_cases hrun : run = run'
  · rw [if_pos hrun, Option.isSome_map, hrun]
  · rw [if_neg hrun]

/-- The runs that have a score are the planned ones. -/
theorem isSome_getElem?_new (runs : List Run) (run : Run) :
    (new runs)[run]?.isSome ↔ run ∈ runs := by
  rw [Std.TreeMap.isSome_getElem?_iff_mem, new, Std.TreeMap.mem_ofList, List.map_map]
  simp

end Results

end CacheLab
