import CacheLab.Tracker
import CacheLab.Proofs.Pairs
import Mathlib.Data.List.TakeWhile

/-!
# CacheLab.Proofs.EvictionQueue — the order of leaving, for every policy

All three policies keep one thing: a queue of keys with access counts, sorted
by count, in which the first key leaves next.

* A new key has the count `Frequency.initial` and is placed behind all keys of
  at most that count (`place`).
* An access takes its key out and places it again with its next count. Under
  `lru` the count stays the same, so all counts are equal and the key goes to
  the end; under `fifo` nothing moves.

The trackers are three ways to keep this queue at hand. What a cache does is
stated over the queue alone: what a call on one key leaves of the others
(`without_place`, `without_access`), and how a tracker of each policy lists the
keys (`listedBy`).
-/

namespace CacheLab

/-- Keys with their access counts; the first key leaves next. -/
abbrev EvictionQueue (κ : Type) := List (κ × Nat)

/-- The access count of a key after an access. -/
def Policy.nextCount : Policy → Nat → Nat
  | lru, count | fifo, count => count
  | lfu, count => min (count + 1) Frequency.limit

namespace EvictionQueue

variable {κ : Type}

/-- The queued keys. -/
def keys (q : EvictionQueue κ) : List κ := q.map (·.1)

/-- Puts `key` behind all keys of at most `count` accesses. -/
def place (q : EvictionQueue κ) (key : κ) (count : Nat) : EvictionQueue κ :=
  q.takeWhile (·.2 ≤ count) ++ (key, count) :: q.dropWhile (·.2 ≤ count)

/-- Adds a new key. -/
def insert (q : EvictionQueue κ) (key : κ) : EvictionQueue κ := q.place key Frequency.initial

section

variable [DecidableEq κ]

/-- The queue without `key`. -/
def without (q : EvictionQueue κ) (key : κ) : EvictionQueue κ := q.filter (·.1 ≠ key)

/-- Notes an access to `key`. -/
def access (policy : Policy) (q : EvictionQueue κ) (key : κ) : EvictionQueue κ :=
  if policy.tracksAccess then
    match q.lookup key with
    | none => q
    | some count => (q.without key).place key (policy.nextCount count)
  else
    q

end

variable {q a b : EvictionQueue κ} {key : κ} {count : Nat}

section

variable [DecidableEq κ] {policy : Policy}

theorem access_of_notMem (hfresh : key ∉ q.keys) : access policy q key = q := by
  unfold access
  rw [Pairs.lookup_eq_none_iff_notMem.mpr hfresh]
  split <;> rfl

theorem access_of_lookup (htracks : policy.tracksAccess = true)
    (hcount : q.lookup key = some count) :
    access policy q key = (q.without key).place key (policy.nextCount count) := by
  rw [access, if_pos htracks, hcount]

end

/-! ## Placing -/

/-- The place of a key in a queue that is split at its count. -/
theorem place_append (ha : ∀ p ∈ a, p.2 ≤ count) (hb : ∀ p ∈ b, count < p.2) :
    place (a ++ b) key count = a ++ (key, count) :: b := by
  have htake : ∀ p ∈ a, decide (p.2 ≤ count) = true := by
    intro p hp
    exact decide_eq_true (ha p hp)
  have hdrop : b.takeWhile (·.2 ≤ count) = [] ∧ b.dropWhile (·.2 ≤ count) = b := by
    cases b with
    | nil => exact ⟨rfl, rfl⟩
    | cons p b =>
      have hgt := hb p List.mem_cons_self
      have hfalse : ¬ decide (p.2 ≤ count) = true := by
        rw [decide_eq_true_iff]
        omega
      -- the first pair of `b` stops both
      exact ⟨List.takeWhile_cons_of_neg hfalse, List.dropWhile_cons_of_neg hfalse⟩
  rw [place, List.takeWhile_append_of_pos htake, List.dropWhile_append_of_pos htake,
    hdrop.1, hdrop.2, List.append_nil]

/-- With no greater count in the queue the new place is the last one. -/
theorem place_of_le (hq : ∀ p ∈ q, p.2 ≤ count) : q.place key count = q ++ [(key, count)] := by
  have hplace : place (q ++ []) key count = q ++ [(key, count)] :=
    place_append hq (by simp)
  rwa [List.append_nil] at hplace

theorem place_perm (q : EvictionQueue κ) (key : κ) (count : Nat) :
    (q.place key count).Perm ((key, count) :: q) := by
  have hsplit := List.takeWhile_append_dropWhile (p := fun p => decide (p.2 ≤ count)) (l := q)
  have hmiddle : (q.place key count).Perm
      ((key, count) :: (q.takeWhile (·.2 ≤ count) ++ q.dropWhile (·.2 ≤ count))) :=
    List.perm_middle
  rwa [hsplit] at hmiddle

/-! ## Keys -/

theorem length_keys (q : EvictionQueue κ) : q.keys.length = q.length := List.length_map _

theorem keys_place_perm (q : EvictionQueue κ) (key : κ) (count : Nat) :
    (q.place key count).keys.Perm (key :: q.keys) :=
  (place_perm q key count).map _

section

variable [DecidableEq κ]

theorem keys_without (q : EvictionQueue κ) (key : κ) :
    (q.without key).keys = q.keys.filter (· ≠ key) := by
  rw [keys, without, keys, List.filter_map]
  rfl

theorem mem_keys_without {k : κ} : k ∈ (q.without key).keys ↔ k ∈ q.keys ∧ k ≠ key := by
  rw [keys_without, List.mem_filter, decide_eq_true_iff]

/-- An access moves keys only. -/
theorem keys_access_perm (policy : Policy) (hnodup : q.keys.Nodup) (key : κ) :
    (access policy q key).keys.Perm q.keys := by
  unfold access
  split
  · cases hlookup : q.lookup key with
    | none => exact List.Perm.refl _
    | some count =>
      have hmem : key ∈ q.keys :=
        List.mem_map_of_mem (f := (·.1)) (Pairs.mem_of_lookup_eq_some hlookup)
      have hplace := keys_place_perm (q.without key) key (policy.nextCount count)
      -- the key leaves its place between `ks` and `ls` and is placed again
      rcases List.append_of_mem hmem with ⟨ks, ls, hkeys⟩
      rw [hkeys] at hnodup ⊢
      rw [keys_without, hkeys, Pairs.filter_keys_middle hnodup] at hplace
      exact hplace.trans List.perm_middle.symm
  · exact List.Perm.refl _

end

/-! ## Queues of equal counts -/

/-- The queue of these keys, all with the initial count. -/
def uniform (ks : List κ) : EvictionQueue κ := ks.map (·, Frequency.initial)

theorem keys_uniform (ks : List κ) : (uniform ks).keys = ks := by
  rw [keys, uniform, List.map_map]
  exact List.map_id ks

theorem count_of_mem_uniform {ks : List κ} {p : κ × Nat} (hp : p ∈ uniform ks) :
    p.2 = Frequency.initial := by
  rcases List.mem_map.mp hp with ⟨k, -, rfl⟩
  rfl

theorem place_uniform (ks : List κ) (key : κ) :
    (uniform ks).place key Frequency.initial = uniform (ks ++ [key]) := by
  have hle : ∀ p ∈ uniform ks, p.2 ≤ Frequency.initial := fun p hp =>
    Nat.le_of_eq (count_of_mem_uniform hp)
  rw [place_of_le hle, uniform, uniform, List.map_append]
  rfl

section

variable [DecidableEq κ]

theorem without_uniform (ks : List κ) (key : κ) :
    (uniform ks).without key = uniform (ks.filter (· ≠ key)) := by
  rw [without, uniform, List.filter_map]
  rfl

theorem lookup_uniform {ks : List κ} (hmem : key ∈ ks) :
    (uniform ks).lookup key = some Frequency.initial := by
  cases hlookup : (uniform ks).lookup key with
  | none =>
    have hfresh := Pairs.lookup_eq_none_iff_notMem.mp hlookup
    exact absurd hmem ((keys_uniform ks).symm ▸ hfresh)
  | some n =>
    have hcount : n = Frequency.initial :=
      count_of_mem_uniform (Pairs.mem_of_lookup_eq_some hlookup)
    rw [hcount]

end

/-! ## Sorted queues -/

/-- The queue is sorted by count. -/
def Sorted (q : EvictionQueue κ) : Prop := q.Pairwise (·.2 ≤ ·.2)

theorem sorted_uniform (ks : List κ) : (uniform ks).Sorted := by
  apply List.pairwise_map.mpr
  exact List.pairwise_of_forall fun _ _ => Nat.le_refl _

/-- A sorted queue falls apart at each count. -/
theorem Sorted.split (hq : q.Sorted) (count : Nat) :
    ∃ before behind, q = before ++ behind ∧ (∀ p ∈ before, p.2 ≤ count) ∧
      ∀ p ∈ behind, count < p.2 := by
  induction q with
  | nil => exact ⟨[], [], rfl, nofun, nofun⟩
  | cons p q ih =>
    rcases List.pairwise_cons.mp hq with ⟨hfirst, hrest⟩
    by_cases hle : p.2 ≤ count
    · rcases ih hrest with ⟨before, behind, rfl, hbefore, hbehind⟩
      exact ⟨p :: before, behind, rfl, List.forall_mem_cons.mpr ⟨hle, hbefore⟩, hbehind⟩
    · -- no later key has a smaller count
      refine ⟨[], p :: q, rfl, nofun, List.forall_mem_cons.mpr ⟨Nat.lt_of_not_le hle, ?_⟩⟩
      intro p' hp'
      exact Nat.lt_of_lt_of_le (Nat.lt_of_not_le hle) (hfirst p' hp')

section

variable [DecidableEq κ] {a : κ}

theorem Sorted.without (hq : q.Sorted) (key : κ) : (q.without key).Sorted := hq.filter _

theorem without_comm (q : EvictionQueue κ) (key a : κ) :
    (q.without key).without a = (q.without a).without key := by
  rw [without, without, without, without, List.filter_filter, List.filter_filter]
  congr 1
  funext p
  exact Bool.and_comm _ _

/-- A key is placed behind the same keys whether or not another key is queued. -/
theorem without_place (hq : q.Sorted) (hne : key ≠ a) (count : Nat) :
    (q.place key count).without a = (q.without a).place key count := by
  rcases hq.split count with ⟨before, behind, rfl, hbefore, hbehind⟩
  have hbefore' : ∀ p ∈ before.without a, p.2 ≤ count := fun p hp =>
    hbefore p (List.mem_of_mem_filter hp)
  have hbehind' : ∀ p ∈ behind.without a, count < p.2 := fun p hp =>
    hbehind p (List.mem_of_mem_filter hp)
  calc (place (before ++ behind) key count).without a
      = (before ++ (key, count) :: behind).without a := by rw [place_append hbefore hbehind]
    _ = before.without a ++ (key, count) :: behind.without a := by
      rw [without, List.filter_append, List.filter_cons_of_pos (by simpa using hne)]
      rfl
    _ = (before.without a ++ behind.without a).place key count :=
      (place_append hbefore' hbehind').symm
    _ = (without (before ++ behind) a).place key count := by
      rw [without, without, without, List.filter_append]

theorem lookup_without (q : EvictionQueue κ) (hne : key ≠ a) :
    (q.without a).lookup key = q.lookup key := by
  rw [without, Pairs.lookup_filter, if_neg hne]

/-- An access to one key and a removal of another commute. -/
theorem without_access (hq : q.Sorted) (hne : key ≠ a) (policy : Policy) :
    (q.access policy key).without a = (q.without a).access policy key := by
  unfold access
  rw [lookup_without q hne]
  by_cases htracks : policy.tracksAccess = true
  · rw [if_pos htracks, if_pos htracks]
    cases q.lookup key with
    | none => rfl
    | some n =>
      show ((q.without key).place key _).without a = ((q.without a).without key).place key _
      rw [without_place (hq.without key) hne, without_comm]
  · rw [if_neg htracks, if_neg htracks]

/-! ### What changes at one key only -/

/-- Placing a key changes nothing else. -/
theorem without_place_self (q : EvictionQueue κ) (key : κ) (count : Nat) :
    (q.place key count).without key = q.without key := by
  have hsplit := List.takeWhile_append_dropWhile (p := fun p => decide (p.2 ≤ count)) (l := q)
  calc (q.place key count).without key
      = without (q.takeWhile (·.2 ≤ count)) key ++ without (q.dropWhile (·.2 ≤ count)) key := by
        rw [place, without, List.filter_append, List.filter_cons_of_neg (by simp)]
        rfl
    _ = without (q.takeWhile (·.2 ≤ count) ++ q.dropWhile (·.2 ≤ count)) key := by
        rw [without, without, without, List.filter_append]
    _ = q.without key := by rw [hsplit]

theorem without_without_self (q : EvictionQueue κ) (key : κ) :
    (q.without key).without key = q.without key := by
  rw [without, without, List.filter_filter]
  congr 1
  funext p
  exact Bool.and_self _

/-- An access moves nothing but its key. -/
theorem without_access_self (policy : Policy) (q : EvictionQueue κ) (key : κ) :
    (q.access policy key).without key = q.without key := by
  unfold access
  split
  · cases q.lookup key with
    | none => rfl
    | some n =>
      show ((q.without key).place key _).without key = q.without key
      rw [without_place_self, without_without_self]
  · rfl

/-- Behind the first pair its key does not come again. -/
theorem without_head {p : κ × Nat} (hnodup : (keys (p :: q)).Nodup) :
    without (p :: q) p.1 = q := by
  have hfresh : p.1 ∉ ([] ++ q : EvictionQueue κ).map (·.1) := (List.nodup_cons.mp hnodup).1
  exact Pairs.filter_middle hfresh

/-- Taking the new key out again leaves the queue as it was. -/
theorem without_insert (hfresh : key ∉ q.keys) : (q.insert key).without key = q := by
  rw [insert, without_place_self]
  exact Pairs.filter_of_notMem hfresh

end

/-! ## Listed by policy -/

/-- The pairs by count, and of equal counts the one that leaves last first. -/
def recentFirst (q : EvictionQueue κ) : EvictionQueue κ :=
  q.foldr (fun p listed => listed.place p.1 p.2) []

/-- The keys in the order in which a tracker of the policy lists them. -/
def listedBy (q : EvictionQueue κ) : Policy → List κ
  | .lru => q.keys.reverse
  | .fifo => q.keys
  | .lfu => q.recentFirst.keys

theorem Sorted.place (hq : q.Sorted) (key : κ) (count : Nat) : (q.place key count).Sorted := by
  rcases hq.split count with ⟨before, behind, rfl, hbefore, hbehind⟩
  rw [place_append hbefore hbehind]
  rcases List.pairwise_append.mp hq with ⟨hsorted, hsorted', -⟩
  refine List.pairwise_append.mpr ⟨hsorted, List.pairwise_cons.mpr ⟨?_, hsorted'⟩, ?_⟩
  · intro p hp
    exact Nat.le_of_lt (hbehind p hp)
  · intro p hp p' hp'
    rcases List.mem_cons.mp hp' with rfl | hlater
    · exact hbefore p hp
    · exact Nat.le_trans (hbefore p hp) (Nat.le_of_lt (hbehind p' hlater))

theorem sorted_recentFirst (q : EvictionQueue κ) : q.recentFirst.Sorted := by
  induction q with
  | nil => exact List.Pairwise.nil
  | cons p q ih => exact ih.place p.1 p.2

theorem recentFirst_perm (q : EvictionQueue κ) : q.recentFirst.Perm q := by
  induction q with
  | nil => exact List.Perm.refl []
  | cons p q ih => exact (place_perm (recentFirst q) p.1 p.2).trans (ih.cons p)

section

variable [DecidableEq κ]

theorem recentFirst_without (q : EvictionQueue κ) (key : κ) :
    (q.without key).recentFirst = q.recentFirst.without key := by
  induction q with
  | nil => rfl
  | cons p q ih =>
    have hcons : recentFirst (p :: q) = (recentFirst q).place p.1 p.2 := rfl
    rw [hcons]
    by_cases hkey : p.1 = key
    · have hdropped : without (p :: q) key = without q key :=
        List.filter_cons_of_neg (by simpa using hkey)
      rw [hdropped, hkey, without_place_self, ih]
    · have hkept : without (p :: q) key = p :: without q key :=
        List.filter_cons_of_pos (by simpa using hkey)
      rw [hkept, without_place (sorted_recentFirst q) hkey, ← ih]
      rfl

/-- Taking a key out of the queue takes it out of the listed keys and moves no other one. -/
theorem listedBy_without (q : EvictionQueue κ) (key : κ) (policy : Policy) :
    (q.without key).listedBy policy = (q.listedBy policy).filter (· ≠ key) := by
  cases policy with
  | lru =>
    show (q.without key).keys.reverse = q.keys.reverse.filter (· ≠ key)
    rw [keys_without, List.filter_reverse]
  | fifo => exact q.keys_without key
  | lfu =>
    show (q.without key).recentFirst.keys = q.recentFirst.keys.filter (· ≠ key)
    rw [recentFirst_without, keys_without]

end

end EvictionQueue

end CacheLab
