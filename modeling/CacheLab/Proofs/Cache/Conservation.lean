import CacheLab.Proofs.Cache.LockStep
import Mathlib.Data.Multiset.Filter
import Mathlib.Algebra.BigOperators.Group.List.Basic
import Mathlib.Algebra.Order.Group.Multiset

/-!
# CacheLab.Proofs.Cache.Conservation — no entry is lost or duplicated

An entry comes into a cache by `put`, and it leaves in an answer: displaced by a
later `put`, taken out by `remove`, or popped. So what was given to a cache is
what it has answered together with what it still holds, as multisets of entries.

* `Store.pairs_change` says what writing at one key does to the entries of a store.
* `perform_conserves` is the step lemma: what is held before a call together with
  what is given is what is answered together with what is held afterwards.
* `run_conserves` adds this up over the calls.

The law does not ask which entry leaves, so it holds under every policy.
-/

namespace CacheLab

variable {κ ν : Type}

/-- The entry of `key`, if it has a value. -/
def entryOf (key : κ) (value : Option ν) : Multiset (κ × ν) := ↑(value.map (key, ·)).toList

theorem mem_entryOf {key k : κ} {value : Option ν} {x : ν} :
    (k, x) ∈ entryOf key value ↔ k = key ∧ value = some x := by
  cases value with
  | none => simp [entryOf]
  | some y => simp [entryOf, eq_comm]

theorem nodup_entryOf (key : κ) (value : Option ν) : (entryOf key value).Nodup := by
  cases value with
  | none => exact List.nodup_nil
  | some y => exact List.nodup_singleton (key, y)

/-! ## The entries of a store -/

namespace Store

variable [DecidableEq κ] [Hashable κ] {s s' : Store κ ν} {key : κ}

/-- The entries of a store. -/
def pairs (s : Store κ ν) : Multiset (κ × ν) := ↑s.toList

theorem mem_pairs {k : κ} {x : ν} : (k, x) ∈ s.pairs ↔ s.get? k = some x :=
  Std.HashMap.mem_toList_iff_getElem?_eq_some

theorem nodup_pairs (s : Store κ ν) : s.pairs.Nodup := by
  apply List.Pairwise.imp _ s.map.distinct_keys_toList
  rintro a b hkeys rfl
  simp at hkeys

/-- The entries are that of one key and those of the other keys. -/
theorem pairs_split (s : Store κ ν) (key : κ) :
    s.pairs = entryOf key (s.get? key) + s.pairs.filter (·.1 ≠ key) := by
  have hat : s.pairs.filter (·.1 = key) = entryOf key (s.get? key) := by
    rw [(s.nodup_pairs.filter _).ext (nodup_entryOf key _)]
    rintro ⟨k, x⟩
    rw [Multiset.mem_filter, mem_pairs, mem_entryOf]
    constructor
    · rintro ⟨hget, rfl⟩
      exact ⟨rfl, hget⟩
    · rintro ⟨rfl, hget⟩
      exact ⟨hget, rfl⟩
  rw [← hat]
  exact (Multiset.filter_add_not _ _).symm

/-- Writing at one key takes its old entry out and puts the new one in. -/
theorem pairs_change {value : Option ν}
    (hchange : ∀ k, s'.get? k = if k = key then value else s.get? k) :
    s.pairs + entryOf key value = entryOf key (s.get? key) + s'.pairs := by
  have hothers : s'.pairs.filter (·.1 ≠ key) = s.pairs.filter (·.1 ≠ key) := by
    rw [(s'.nodup_pairs.filter _).ext (s.nodup_pairs.filter _)]
    rintro ⟨k, x⟩
    rw [Multiset.mem_filter, Multiset.mem_filter, mem_pairs, mem_pairs, hchange]
    constructor
    · rintro ⟨hget, hne⟩
      exact ⟨by rwa [if_neg hne] at hget, hne⟩
    · rintro ⟨hget, hne⟩
      exact ⟨by rwa [if_neg hne], hne⟩
  have hnew : s'.get? key = value := by rw [hchange, if_pos rfl]
  rw [s.pairs_split key, s'.pairs_split key, hothers, hnew, add_assoc,
    add_comm _ (entryOf key value)]

theorem pairs_insert (s : Store κ ν) (key : κ) (value : ν) :
    s.pairs + {(key, value)} = entryOf key (s.get? key) + (s.insert key value).pairs :=
  pairs_change (s.get?_insert key value)

theorem pairs_remove (s : Store κ ν) (key : κ) :
    s.pairs = entryOf key (s.remove key).1 + (s.remove key).2.pairs := by
  have hchange := pairs_change (s.get?_remove key)
  rwa [entryOf, Option.map_none, Option.toList_none, Multiset.coe_nil, add_zero] at hchange

end Store

/-! ## What calls give and get -/

/-- The entries that a call gives to the cache. -/
def Call.given : Call κ ν → Multiset (κ × ν)
  | .put key value => {(key, value)}
  | _ => 0

/-- The entries that a call gets from the cache. -/
def Call.returned : Call κ ν → Answer κ ν → Multiset (κ × ν)
  | .put _ _, .entry entry | .pop, .entry entry => ↑entry.toList
  | .remove key, .value value => entryOf key value
  | _, _ => 0

/-- Whether a call answers every entry that it takes out, and changes none. -/
def Call.isAccounted : Call κ ν → Bool
  | .modify _ _ | .erase _ | .clear => false
  | _ => true

namespace Cache

variable [DecidableEq κ] [Hashable κ] {c : Cache κ ν} {key : κ}

/-- The entries that a cache holds. -/
def held (c : Cache κ ν) : Multiset (κ × ν) := c.store.pairs

theorem held_new (config : Config) : (new config : Cache κ ν).held = 0 := by
  simp [held, new, Store.pairs, Store.toList, Store.empty]

theorem held_touch (c : Cache κ ν) (key : κ) : (c.touch key).held = c.held := by
  unfold touch
  split <;> rfl

theorem held_get (c : Cache κ ν) (key : κ) : (c.get key).2.held = c.held := by
  unfold get
  cases c.peek? key with
  | none => rfl
  | some value => exact c.held_touch key

/-- An evicted entry is taken out of the store. -/
theorem held_evict (c : Cache κ ν) : c.held = ↑(c.evict).1.toList + (c.evict).2.held := by
  unfold evict
  rcases c.tracker.evict with ⟨_ | key, tracker⟩
  · exact (zero_add c.held).symm
  · have hpairs := c.store.pairs_remove key
    rcases hremove : c.store.remove key with ⟨_ | value, store⟩ <;> rw [hremove] at hpairs
    · simp only [hremove]
      exact hpairs
    · simp only [hremove]
      exact hpairs

theorem held_remove (c : Cache κ ν) (key : κ) :
    c.held = entryOf key (c.remove key).1 + (c.remove key).2.held := by
  have hpairs := c.store.pairs_remove key
  unfold remove
  cases hpeek : c.peek? key with
  | none => exact (zero_add c.held).symm
  | some value =>
    have hfound : (c.store.remove key).1 = some value := hpeek
    rw [hfound] at hpairs
    exact hpairs

theorem held_put (c : Cache κ ν) (key : κ) (value : ν) :
    c.held + {(key, value)} = ↑(c.put key value).1.toList + (c.put key value).2.held := by
  unfold put
  cases hpeek : c.peek? key with
  | some old =>
    -- the old value is answered
    have hinsert := c.store.pairs_insert key value
    have hold : c.store.get? key = some old := hpeek
    rw [hold] at hinsert
    have htouch := held_touch { c with store := c.store.insert key value } key
    exact hinsert.trans (congrArg _ htouch.symm)
  | none =>
    have insert_absent : ∀ d : Cache κ ν, d.store.get? key = none →
        d.held + {(key, value)} = (d.store.insert key value).pairs := by
      intro d hnone
      have hinsert := d.store.pairs_insert key value
      rw [hnone] at hinsert
      exact hinsert.trans (zero_add _)
    by_cases hfull : c.capacity ≤ c.size
    · have hevict := c.held_evict
      -- an eviction brings no new entry, so the key is still absent
      have hnone : (c.evict).2.store.get? key = none := by
        rw [Option.eq_none_iff_forall_ne_some]
        intro x hget
        have hmem : (key, x) ∈ c.held := by
          rw [hevict]
          exact Multiset.mem_add.mpr (Or.inr (Store.mem_pairs.mpr hget))
        exact nomatch hpeek.symm.trans (Store.mem_pairs.mp hmem)
      simp only [if_pos hfull]
      rw [hevict, add_assoc, insert_absent _ hnone]
      rfl
    · simp only [if_neg hfull]
      rw [insert_absent c hpeek]
      exact (zero_add _).symm

/-- What is held and given before a call is answered or held afterwards. -/
theorem perform_conserves (c : Cache κ ν) (call : Call κ ν) (hcall : call.isAccounted = true) :
    c.held + call.given = call.returned (c.perform call).1 + (c.perform call).2.held := by
  cases call with
  | put key value => exact c.held_put key value
  | get key =>
    show c.held + 0 = 0 + (c.get key).2.held
    rw [c.held_get, add_comm]
  | remove key => exact (add_zero _).trans (c.held_remove key)
  | pop => exact (add_zero _).trans c.held_evict
  | modify key f => cases hcall
  | erase key => cases hcall
  | clear => cases hcall
  | contains key => exact add_comm _ _
  | peek key => exact add_comm _ _
  | victim => exact add_comm _ _
  | frequency key => exact add_comm _ _

theorem run_conserves (c : Cache κ ν) (calls : List (Call κ ν))
    (hcalls : ∀ call ∈ calls, call.isAccounted = true) :
    c.held + (calls.map Call.given).sum =
      (List.zipWith Call.returned calls (c.run calls).1).sum + (c.run calls).2.held := by
  induction calls generalizing c with
  | nil => exact add_comm _ _
  | cons call calls ih =>
    rcases List.forall_mem_cons.mp hcalls with ⟨hfirst, hrest⟩
    have hcall := c.perform_conserves call hfirst
    have hrun := ih (c.perform call).2 hrest
    show c.held + (call.given + (calls.map Call.given).sum) =
      (call.returned (c.perform call).1 +
        (List.zipWith Call.returned calls ((c.perform call).2.run calls).1).sum) +
        ((c.perform call).2.run calls).2.held
    rw [← add_assoc, hcall, add_assoc, hrun, ← add_assoc]

/-- All entries that were put into a cache have been answered by `put`, `remove`
and `pop`, or they are still held: none is lost and none comes twice. -/
theorem entries_conserved (config : Config) (calls : List (Call κ ν))
    (hcalls : ∀ call ∈ calls, call.isAccounted = true) :
    let c : Cache κ ν := new config
    (calls.map Call.given).sum =
      (List.zipWith Call.returned calls (c.run calls).1).sum + (c.run calls).2.held := by
  intro c
  have hrun := c.run_conserves calls hcalls
  rwa [held_new, zero_add] at hrun

/-- A cache for one entry: key 1 is evicted, key 2 is updated and then evicted, key
3 is taken out, and key 4 is still there. -/
theorem entries_conserved_one_entry :
    let calls : List (Call Nat Nat) :=
      [.put 1 10, .put 2 20, .put 2 21, .get 2, .put 3 30, .remove 3, .pop, .put 4 40]
    let c : Cache Nat Nat := new ⟨1, .lfu, Nat.one_pos⟩
    (∀ call ∈ calls, call.isAccounted = true) ∧
      ({(1, 10), (2, 20), (2, 21), (3, 30), (4, 40)} : Multiset (Nat × Nat)) =
        {(1, 10), (2, 20), (2, 21), (3, 30)} + (c.run calls).2.held := by
  intro calls c
  have hcalls : ∀ call ∈ calls, call.isAccounted = true := by
    simp [calls, Call.isAccounted]
  let answers : List (Answer Nat Nat) :=
    [.entry none, .entry (some (1, 10)), .entry (some (2, 20)), .value (some 21),
      .entry (some (2, 21)), .value (some 30), .entry none, .entry none]
  have hanswers : (c.run calls).1 = answers := by
    rw [((Shows.new ⟨1, .lfu, Nat.one_pos⟩).run View.Sound.empty calls).1]
    decide
  have hgiven : (calls.map Call.given).sum = {(1, 10), (2, 20), (2, 21), (3, 30), (4, 40)} := by
    decide
  have hreturned : (List.zipWith Call.returned calls answers).sum =
      {(1, 10), (2, 20), (2, 21), (3, 30)} := by
    decide
  have hconserved : (calls.map Call.given).sum =
      (List.zipWith Call.returned calls (c.run calls).1).sum + (c.run calls).2.held :=
    entries_conserved ⟨1, .lfu, Nat.one_pos⟩ calls hcalls
  rw [hanswers, hgiven, hreturned] at hconserved
  exact ⟨hcalls, hconserved⟩

end Cache

end CacheLab
