import CacheLab.Proofs.Fallible
import CacheLab.Simulation.Replay
import Mathlib.Algebra.Ring.Nat

/-!
# CacheLab.Proofs.Simulation.Memory — how large a cache can be

The buckets of a hash table are a power of two, and at most seven of eight of them are taken. So
the tables that can be made are those with at most a certain power of two of buckets:

* `bucketCount_le_iff` inverts the number of buckets, and `tableBytes_ok_iff` says for how many
  entries there can be a table.
* `Algorithm.memory?_ok_iff`: the tables of an algorithm can be made if and only if it is to hold
  no more than `Algorithm.mostEntries`. The list of nodes is never what is too large.
-/

namespace CacheLab

/-! ## Tables -/

/-- A table has at most `2 ^ (k + 3)` buckets as long as seven of eight suffice. -/
theorem bucketCount_le_iff (count k : Nat) :
    bucketCount count ≤ 2 ^ (k + 3) ↔ count ≤ 7 * 2 ^ k := by
  have hpos : 0 < 2 ^ k := Nat.two_pow_pos k
  have hpow : 2 ^ (k + 3) = 8 * 2 ^ k := by
    rw [Nat.pow_add, Nat.mul_comm]
  rw [bucketCount]
  split
  case isTrue => omega
  split
  case isTrue => omega
  split
  case isTrue hlt =>
    cases k with
    | zero => omega
    | succ k =>
      have hpow' : 2 ^ (k + 1) = 2 * 2 ^ k := by
        rw [Nat.pow_succ, Nat.mul_comm]
      have hpos' : 0 < 2 ^ k := Nat.two_pow_pos k
      omega
  case isFalse hlarge =>
    -- the power of two is read off the logarithm, which is bounded as its argument is
    rw [Nat.one_shiftLeft, Nat.pow_le_pow_iff_right (Nat.lt_succ_self 1), Nat.succ_le_iff,
      Nat.log2_lt (by omega)]
    omega

theorem bucketCount_eq_two_pow (count : Nat) : ∃ j, bucketCount count = 2 ^ j := by
  rw [bucketCount]
  split
  · exact ⟨2, rfl⟩
  split
  · exact ⟨3, rfl⟩
  split
  · exact ⟨4, rfl⟩
  · exact ⟨_, Nat.one_shiftLeft _⟩

/-- Which tables can be made, if `2 ^ (k + 3)` buckets can and twice as many cannot. -/
theorem tableBytes_ok_iff {size k : Nat} (hfits : 2 ^ (k + 3) * (size + 1) + 31 ≤ memoryLimit)
    (hover : memoryLimit < 2 ^ (k + 4) * (size + 1) + 31) (count : Nat) :
    (∃ bytes, tableBytes count size = .ok bytes) ↔ count ≤ 7 * 2 ^ k := by
  rw [← bucketCount_le_iff, tableBytes]
  by_cases hfew : bucketCount count ≤ 2 ^ (k + 3)
  · have hbytes := Nat.mul_le_mul_right (size + 1) hfew
    rw [if_pos (by omega)]
    exact iff_of_true ⟨_, rfl⟩ hfew
  · -- the next power of two is out of range
    rcases bucketCount_eq_two_pow count with ⟨j, hj⟩
    have hlt : k + 3 < j := by
      rw [hj, Nat.not_le] at hfew
      exact (Nat.pow_lt_pow_iff_right (Nat.lt_succ_self 1)).mp hfew
    have hmany : 2 ^ (k + 4) ≤ bucketCount count := by
      rw [hj]
      exact Nat.pow_le_pow_right Nat.two_pos hlt
    have hbytes := Nat.mul_le_mul_right (size + 1) hmany
    rw [if_neg (by omega)]
    exact iff_of_false nofun hfew

theorem tableBytes_eq_error {count size : Nat}
    (hnone : ¬ ∃ bytes, tableBytes count size = .ok bytes) :
    tableBytes count size = .error .table := by
  rw [tableBytes] at hnone ⊢
  split
  case isTrue hfits => exact absurd ⟨_, if_pos hfits⟩ hnone
  case isFalse => rfl

theorem listBytes_ok_iff (count size : Nat) :
    (∃ bytes, listBytes count size = .ok bytes) ↔ count * size ≤ memoryLimit := by
  rw [listBytes]
  by_cases hfits : count * size ≤ memoryLimit
  · rw [if_pos hfits]
    exact iff_of_true ⟨_, rfl⟩ hfits
  · rw [if_neg hfits]
    exact iff_of_false nofun hfits

/-! ## Algorithms -/

namespace Algorithm

/-- The greatest number of entries that the tables of an algorithm can be made for. -/
def mostEntries (algorithm : Algorithm) : Nat :=
  match algorithm.policy? with
  | some _ => 7 * 2 ^ 54
  | none => 7 * 2 ^ 55

/-- The list of nodes is never what does not fit. -/
theorem memory?_ok_iff (algorithm : Algorithm) (capacity : Nat) :
    (∃ bytes, algorithm.memory? capacity = .ok bytes) ↔ capacity ≤ algorithm.mostEntries := by
  have hvalues := @tableBytes_ok_iff 32 54 (by decide) (by decide) capacity
  have hpositions := @tableBytes_ok_iff 40 54 (by decide) (by decide) capacity
  have hpointers := @tableBytes_ok_iff 16 55 (by decide) (by decide) capacity
  have hnodes := listBytes_ok_iff capacity 56
  have hroom : capacity ≤ 7 * 2 ^ 54 → capacity * 56 ≤ memoryLimit := by
    rw [memoryLimit]
    omega
  have htables : ∀ {x y z : Except Overflow Nat},
      (∃ n, (do let a ← x; let b ← y; let c ← z; return a + b + c) = .ok n) ↔
        (∃ n, x = .ok n) ∧ (∃ n, y = .ok n) ∧ (∃ n, z = .ok n) ∧ True :=
    bind_ok_iff fun _ => bind_ok_iff fun _ => bind_ok_iff fun _ => iff_of_true ⟨_, rfl⟩ trivial
  cases algorithm with
  | referenceLru => exact hpointers
  | lfu =>
    refine htables.trans ?_
    rw [hvalues, hpositions]
    exact ⟨And.left, fun h => ⟨h, ⟨0, rfl⟩, h, trivial⟩⟩
  | lru | fifo =>
    refine htables.trans ?_
    rw [hvalues, hnodes]
    exact ⟨And.left, fun h => ⟨h, hroom h, h, trivial⟩⟩

/-- Otherwise already the first table does not fit. -/
theorem memory?_of_lt {algorithm : Algorithm} {capacity : Nat}
    (hlarge : algorithm.mostEntries < capacity) :
    algorithm.memory? capacity = .error .table := by
  have hvalues := @tableBytes_ok_iff 32 54 (by decide) (by decide) capacity
  have hpointers := @tableBytes_ok_iff 16 55 (by decide) (by decide) capacity
  cases algorithm with
  | referenceLru => exact tableBytes_eq_error (mt hpointers.mp (Nat.not_le.mpr hlarge))
  | lru | fifo | lfu =>
    have hfirst := tableBytes_eq_error (mt hvalues.mp (Nat.not_le.mpr hlarge))
    rw [memory?]
    dsimp only [policy?]
    rw [hfirst]
    rfl

end Algorithm

end CacheLab
