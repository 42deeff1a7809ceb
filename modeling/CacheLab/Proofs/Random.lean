import CacheLab.Random
import Mathlib.Algebra.Order.Ring.Nat

/-!
# CacheLab.Proofs.Random — where draws lie

A drawn number lies in the range that it is drawn from, whatever words the source gives, and an
event of probability zero or one is decided without it.
-/

namespace CacheLab.Random.Source

/-! ## Events -/

/-- An event of probability zero never happens. -/
theorem chance_zero (s : Source) : (chance 0.0 s).1 = false := by
  have hsome : ((0.0 : Float) == 1.0) = false := by decide +kernel
  have hbound : ((0.0 : Float) * 18446744073709551616.0).toUInt64 = 0 := by decide +kernel
  rw [chance, hsome, hbound]
  show decide ((doubleWord s).1 < 0) = false
  exact decide_eq_false UInt64.not_lt_zero

/-- An event of probability one always happens. -/
theorem chance_one (s : Source) : (chance 1.0 s).1 = true := by
  have hcertain : ((1.0 : Float) == 1.0) = true := by decide +kernel
  rw [chance, hcertain]
  rfl

/-! ## Numbers of a range -/

/-- A draw that is spread over a range lies in it. -/
theorem below_lt {draw : StateM Source Nat} {count range : Nat} (zone fuel : Nat)
    (hdraw : ∀ s, (draw s).1 < count) (hrange : 0 < range) (s : Source) :
    (below draw count range zone fuel s).1 < range := by
  induction fuel generalizing s with
  | zero => exact hrange
  | succ fuel ih =>
    rw [below]
    show ((if (draw s).1 * range % count ≤ zone then _ else _ : StateM Source Nat) (draw s).2).1 < _
    split
    · show (draw s).1 * range / count < range
      refine Nat.div_lt_of_lt_mul ?_
      exact Nat.mul_lt_mul_of_pos_right (hdraw s) hrange
    · exact ih (draw s).2

theorem between_mem {draw : StateM Source Nat} {count low high : Nat}
    (hdraw : ∀ s, (draw s).1 < count) (hle : low ≤ high) (hhigh : high < count) (s : Source) :
    low ≤ (between draw count low high s).1 ∧ (between draw count low high s).1 ≤ high := by
  rw [between]
  dsimp only
  split
  case isTrue hall =>
    -- a range of all words has its ends at the ends of the words
    have hlt := hdraw s
    omega
  case isFalse hpart =>
    generalize hzone : (high - low + 1) <<< (count.log2 - 1 - (high - low + 1).log2) - 1 = zone
    have hlt := below_lt zone patience hdraw (Nat.zero_lt_succ (high - low)) s
    show low ≤ low + (below draw count (high - low + 1) zone patience s).1 ∧
      low + (below draw count (high - low + 1) zone patience s).1 ≤ high
    rw [Nat.succ_eq_add_one] at hlt
    omega

theorem belowWord_lt {n : Nat} (hpos : 0 < n) (hword : n ≤ halfWordCount) (s : Source) :
    (belowWord n s).1 < n := by
  have hdraw : ∀ s, ((do return (← word).toNat : StateM Source Nat) s).1 < halfWordCount := by
    intro s
    exact UInt32.toNat_lt (word s).1
  have hmem := between_mem hdraw (Nat.zero_le (n - 1)) (by omega) s
  rw [belowWord]
  omega

theorem betweenWords_mem {low high : Nat} (hle : low ≤ high) (hword : high < wordCount)
    (s : Source) : low ≤ (betweenWords low high s).1 ∧ (betweenWords low high s).1 ≤ high := by
  refine between_mem ?_ hle hword s
  intro s
  exact UInt64.toNat_lt (doubleWord s).1

end CacheLab.Random.Source
