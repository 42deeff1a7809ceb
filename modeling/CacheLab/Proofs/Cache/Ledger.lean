import CacheLab.Proofs.Cache.LockStep
import Mathlib.Data.List.Infix
import Mathlib.Data.List.MinMax
import Mathlib.Data.Prod.Lex

/-!
# CacheLab.Proofs.Cache.Ledger — a cache under `lfu` is a ledger of counts and times

The plain model of a cache that evicts the least frequently used entry: a
record for each present key with its value, its access count and the time of
its last touch, in no particular order. The victim is the record of the
smallest count and, among those, of the earliest touch.

`lfu_run_eq`: as long as no access count passes `Frequency.limit`, a cache under
`lfu` answers every history of calls as the ledger does. The queue of the cache
is the records sorted by count and touch (`View.ByCount`): a touched key has the
latest time, so it belongs behind all keys of its count.
-/

namespace CacheLab

/-- What is known of a present key. -/
structure Record (κ ν : Type) where
  key : κ
  value : ν
  count : Nat
  touched : Nat

/-- The records with the smallest rank leave first: those of the smallest count,
and of equal counts the one that was touched first. -/
def Record.rank {κ ν : Type} (r : Record κ ν) : ℕ ×ₗ ℕ := toLex (r.count, r.touched)

/-- What the queue of the cache holds of a record. -/
def Record.queued {κ ν : Type} (r : Record κ ν) : κ × Nat := (r.key, r.count)

/-- The records of the present keys, and the time of the next touch. -/
structure Ledger (κ ν : Type) where
  records : List (Record κ ν) := []
  clock : Nat := 0

namespace Ledger

variable {κ ν : Type} [DecidableEq κ]

/-- The record of `key`. -/
def find? (l : Ledger κ ν) (key : κ) : Option (Record κ ν) := l.records.find? (·.key = key)

/-- The record that leaves next. -/
def victim? (l : Ledger κ ν) : Option (Record κ ν) := l.records.argmin Record.rank

/-- Takes the record of `key` out. -/
def drop (l : Ledger κ ν) (key : κ) : Ledger κ ν :=
  { l with records := l.records.filter (·.key ≠ key) }

/-- Writes the record of `key`, which is touched now. -/
def write (l : Ledger κ ν) (key : κ) (value : ν) (count : Nat) : Ledger κ ν where
  records := ⟨key, value, count, l.clock⟩ :: (l.drop key).records
  clock := l.clock + 1

/-- Takes the victim out and answers its entry. -/
def evict (l : Ledger κ ν) : Option (κ × ν) × Ledger κ ν :=
  match l.victim? with
  | none => (none, l)
  | some r => (some (r.key, r.value), l.drop r.key)

/-- Looks `key` up, which counts as an access, and changes its value. -/
def modify (l : Ledger κ ν) (key : κ) (f : ν → ν) : Option ν × Ledger κ ν :=
  match l.find? key with
  | none => (none, l)
  | some r => (some r.value, l.write key (f r.value) (r.count + 1))

/-- Updates a present key, which counts as an access, or inserts an absent one
with the count 1, after an eviction if there is no room for it. -/
def put (capacity : Nat) (l : Ledger κ ν) (key : κ) (value : ν) : Option (κ × ν) × Ledger κ ν :=
  match l.find? key with
  | some r => (some (key, r.value), l.write key value (r.count + 1))
  | none =>
    let (evicted, l) := if l.records.length = capacity then l.evict else (none, l)
    (evicted, l.write key value 1)

/-- Makes one call. -/
def perform (capacity : Nat) (l : Ledger κ ν) : Call κ ν → Answer κ ν × Ledger κ ν
  | .put key value => let (entry, l) := l.put capacity key value; (.entry entry, l)
  | .get key => let (value, l) := l.modify key id; (.value value, l)
  | .modify key f => let (value, l) := l.modify key f; (.value value, l)
  | .remove key => (.value ((l.find? key).map (·.value)), l.drop key)
  | .erase key => (.flag (l.find? key).isSome, l.drop key)
  | .pop => let (entry, l) := l.evict; (.entry entry, l)
  | .clear => (.done, { l with records := [] })
  | .contains key => (.flag (l.find? key).isSome, l)
  | .peek key => (.value ((l.find? key).map (·.value)), l)
  | .victim => (.key (l.victim?.map (·.key)), l)
  | .frequency key => (.count ((l.find? key).map (·.count)), l)

/-- Makes the calls one after another. -/
def run (capacity : Nat) (l : Ledger κ ν) : List (Call κ ν) → List (Answer κ ν) × Ledger κ ν
  | [] => ([], l)
  | call :: calls =>
    let (answer, l) := l.perform capacity call
    let (answers, l) := l.run capacity calls
    (answer :: answers, l)

end Ledger

namespace Record

variable {κ ν : Type} {r s : Record κ ν} {rs : List (Record κ ν)}

theorem rank_lt_iff :
    r.rank < s.rank ↔ r.count < s.count ∨ r.count = s.count ∧ r.touched < s.touched :=
  Prod.Lex.toLex_lt_toLex

/-- The first of the records by rank is the one of the smallest rank. -/
theorem argmin_of_sorted {records : List (Record κ ν)} (hperm : (r :: rs).Perm records)
    (hsorted : (r :: rs).Pairwise (·.rank < ·.rank)) : records.argmin rank = some r := by
  have hmem : r ∈ records := hperm.mem_iff.mp List.mem_cons_self
  cases hmin : records.argmin rank with
  | none =>
    rw [List.argmin_eq_none] at hmin
    rw [hmin] at hmem
    exact absurd hmem List.not_mem_nil
  | some s =>
    have hle : s.rank ≤ r.rank := List.le_of_mem_argmin hmem hmin
    have hs : s ∈ r :: rs := hperm.mem_iff.mpr (List.argmin_mem hmin)
    rcases List.mem_cons.mp hs with rfl | hlater
    · rfl
    · have hlt := (List.pairwise_cons.mp hsorted).1 s hlater
      exact absurd hlt (not_lt_of_ge hle)

/-- Records by rank fall apart at each count. -/
theorem split_of_sorted (hsorted : rs.Pairwise (·.rank < ·.rank)) (count : Nat) :
    ∃ as bs, rs = as ++ bs ∧ (∀ r ∈ as, r.count ≤ count) ∧ ∀ r ∈ bs, count < r.count := by
  induction rs with
  | nil => exact ⟨[], [], rfl, by simp, by simp⟩
  | cons r rs ih =>
    rcases List.pairwise_cons.mp hsorted with ⟨hfirst, hsorted⟩
    by_cases hle : r.count ≤ count
    · rcases ih hsorted with ⟨as, bs, hsplit, has, hbs⟩
      refine ⟨r :: as, bs, congrArg (r :: ·) hsplit, ?_, hbs⟩
      intro s hs
      rcases List.mem_cons.mp hs with rfl | hs
      · exact hle
      · exact has s hs
    · -- the ranks ascend, so no later record has a smaller count
      refine ⟨[], r :: rs, rfl, by simp, ?_⟩
      intro s hs
      rcases List.mem_cons.mp hs with rfl | hs
      · omega
      · rcases rank_lt_iff.mp (hfirst s hs) with hlt | ⟨heq, -⟩ <;> omega

end Record

namespace Ledger

variable {κ ν : Type} [DecidableEq κ] {l : Ledger κ ν} {key : κ} {r : Record κ ν}

theorem find?_eq_some_iff (hnodup : (l.records.map (·.key)).Nodup) :
    l.find? key = some r ↔ r ∈ l.records ∧ r.key = key := by
  constructor
  · intro hfind
    exact ⟨List.mem_of_find?_eq_some hfind, by simpa using List.find?_some hfind⟩
  · rintro ⟨hmem, rfl⟩
    -- some record of this key is found, and there is only one
    have hsome : (l.find? r.key).isSome := List.find?_isSome.mpr ⟨r, hmem, by simp⟩
    rcases Option.isSome_iff_exists.mp hsome with ⟨s, hs⟩
    have hkey : s.key = r.key := by simpa using List.find?_some hs
    have hsame := List.inj_on_of_nodup_map hnodup (List.mem_of_find?_eq_some hs) hmem hkey
    rw [hs, hsame]

theorem find?_drop (l : Ledger κ ν) (key k : κ) :
    (l.drop key).find? k = if k = key then none else l.find? k := by
  rw [find?, drop, List.find?_filter]
  by_cases hk : k = key
  · rw [if_pos hk, List.find?_eq_none]
    intro r _
    simp [hk]
  · rw [if_neg hk, find?]
    congr 1
    funext r
    by_cases hr : r.key = k
    · simp [hr, hk]
    · simp [hr]

theorem find?_write (l : Ledger κ ν) (key : κ) (value : ν) (count : Nat) (k : κ) :
    (l.write key value count).find? k =
      if k = key then some ⟨key, value, count, l.clock⟩ else l.find? k := by
  have hdrop := l.find?_drop key k
  rw [find?] at hdrop
  rw [find?, write, List.find?_cons, hdrop]
  by_cases hk : k = key
  · simp [hk]
  · have hne : ¬ key = k := fun heq => hk heq.symm
    simp [hk, hne]

end Ledger

namespace View

variable {κ ν : Type} [DecidableEq κ] {v : View κ ν} {l : Ledger κ ν} {config : Config} {key : κ}
  {r : Record κ ν}

/-- The queue is the records by rank, each was touched before now, and the values are theirs. -/
structure ByCount (v : View κ ν) (l : Ledger κ ν) : Prop where
  queue_eq : ∃ rs : List (Record κ ν), rs.Perm l.records ∧ rs.Pairwise (·.rank < ·.rank) ∧
    v.queue = rs.map Record.queued
  touched_lt : ∀ r ∈ l.records, r.touched < l.clock
  value_eq : ∀ key, v.value key = (l.find? key).map (·.value)

namespace ByCount

omit [DecidableEq κ] in
theorem queue_perm {rs : List (Record κ ν)} (hperm : rs.Perm l.records)
    (hqueue : v.queue = rs.map Record.queued) :
    v.queue.Perm (l.records.map Record.queued) := by
  rw [hqueue]
  exact hperm.map _

theorem empty : (View.empty : View κ ν).ByCount {} where
  queue_eq := ⟨[], List.Perm.refl _, List.Pairwise.nil, rfl⟩
  touched_lt _ hr := absurd hr List.not_mem_nil
  value_eq _ := rfl

theorem keys_nodup (hl : v.ByCount l) (hv : v.Sound config) : (l.records.map (·.key)).Nodup := by
  rcases hl.queue_eq with ⟨rs, hperm, -, hqueue⟩
  have hnodup := hv.keys_nodup
  rw [EvictionQueue.keys, ((queue_perm hperm hqueue).map _).nodup_iff, List.map_map] at hnodup
  exact hnodup

theorem length_eq (hl : v.ByCount l) : v.queue.length = l.records.length := by
  rcases hl.queue_eq with ⟨rs, hperm, -, hqueue⟩
  rw [(queue_perm hperm hqueue).length_eq, List.length_map]

/-- The queued count of a key is the count of its record. -/
theorem lookup_eq (hl : v.ByCount l) (hv : v.Sound config) (key : κ) :
    v.queue.lookup key = (l.find? key).map (·.count) := by
  cases hfind : l.find? key with
  | none =>
    have hnone : v.value key = none := by rw [hl.value_eq, hfind, Option.map_none]
    exact Pairs.lookup_eq_none_iff_notMem.mpr (hv.notMem_iff.mpr hnone)
  | some r =>
    rcases hl.queue_eq with ⟨rs, hperm, -, hqueue⟩
    rcases (Ledger.find?_eq_some_iff (hl.keys_nodup hv)).mp hfind with ⟨hmem, rfl⟩
    apply (Pairs.lookup_eq_some_iff_mem hv.keys_nodup).mpr
    rw [(queue_perm hperm hqueue).mem_iff]
    exact List.mem_map_of_mem (f := Record.queued) hmem

/-! ### Steps -/

theorem drop (hl : v.ByCount l) (key : κ) : (v.drop key).ByCount (l.drop key) where
  queue_eq := by
    rcases hl.queue_eq with ⟨rs, hperm, hsorted, hqueue⟩
    refine ⟨rs.filter (·.key ≠ key), hperm.filter _, hsorted.filter _, ?_⟩
    rw [View.drop, EvictionQueue.without, hqueue, List.filter_map]
    rfl
  touched_lt r hr := hl.touched_lt r (List.mem_of_mem_filter hr)
  value_eq k := by
    rw [value_drop, Ledger.find?_drop, hl.value_eq]
    by_cases hk : k = key
    · rw [if_pos hk, if_pos hk, Option.map_none]
    · rw [if_neg hk, if_neg hk]

/-- The record that is written now has the last place of its count. -/
theorem write (hl : v.ByCount l) (key : κ) (value : ν) (count : Nat) :
    ByCount { v.set key (some value) with queue := (v.queue.without key).place key count }
      (l.write key value count) where
  queue_eq := by
    rcases (hl.drop key).queue_eq with ⟨rs, hperm, hsorted, hqueue⟩
    rcases Record.split_of_sorted hsorted count with ⟨as, bs, rfl, has, hbs⟩
    rcases List.pairwise_append.mp hsorted with ⟨hsortedAs, hsortedBs, hbefore⟩
    -- the new record stands between the records of at most its count and the others
    let r : Record κ ν := ⟨key, value, count, l.clock⟩
    refine ⟨as ++ r :: bs, List.perm_middle.trans (hperm.cons r), ?_, ?_⟩
    · refine List.pairwise_append.mpr ⟨hsortedAs, List.pairwise_cons.mpr ⟨?_, hsortedBs⟩, ?_⟩
      · -- a record of a greater count
        intro s hs
        exact Record.rank_lt_iff.mpr (Or.inl (hbs s hs))
      · intro s hs u hu
        rcases List.mem_cons.mp hu with rfl | hu
        · -- an older record of at most this count
          have hcount := has s hs
          have htouched : s.touched < l.clock :=
            (hl.drop key).touched_lt s (hperm.mem_iff.mp (List.mem_append_left _ hs))
          apply Record.rank_lt_iff.mpr
          show s.count < count ∨ s.count = count ∧ s.touched < l.clock
          omega
        · exact hbefore s hs u hu
    · have hwithout : v.queue.without key = (as ++ bs).map Record.queued := hqueue
      have hle : ∀ p ∈ as.map Record.queued, p.2 ≤ count := by
        intro p hp
        rcases List.mem_map.mp hp with ⟨s, hs, rfl⟩
        exact has s hs
      have hlt : ∀ p ∈ bs.map Record.queued, count < p.2 := by
        intro p hp
        rcases List.mem_map.mp hp with ⟨s, hs, rfl⟩
        exact hbs s hs
      show (v.queue.without key).place key count = _
      rw [hwithout, List.map_append, EvictionQueue.place_append hle hlt, List.map_append]
      rfl
  touched_lt s hs := by
    show s.touched < l.clock + 1
    rcases List.mem_cons.mp hs with rfl | hs
    · exact Nat.lt_succ_self _
    · exact Nat.lt_succ_of_lt ((hl.drop key).touched_lt s hs)
  value_eq k := by
    rw [Ledger.find?_write]
    show (v.set key (some value)).value k = _
    rw [value_set, hl.value_eq]
    by_cases hk : k = key
    · rw [if_pos hk, if_pos hk, Option.map_some]
    · rw [if_neg hk, if_neg hk]

/-- An access to a present key writes its record with one more access. -/
theorem touch (hl : v.ByCount l) (hv : v.Sound config) (hfind : l.find? key = some r)
    (hlimit : r.count + 1 ≤ Frequency.limit) (value : ν) :
    ((v.touch .lfu key).set key (some value)).ByCount (l.write key value (r.count + 1)) := by
  have hlookup : v.queue.lookup key = some r.count := by
    rw [hl.lookup_eq hv, hfind, Option.map_some]
  -- below the limit the count is not cut off
  have hnext : Policy.lfu.nextCount r.count = r.count + 1 := Nat.min_eq_left hlimit
  have haccess : v.queue.access .lfu key = (v.queue.without key).place key (r.count + 1) := by
    rw [EvictionQueue.access_of_lookup rfl hlookup, hnext]
  rw [View.touch, haccess]
  exact hl.write key value (r.count + 1)

theorem insert (hl : v.ByCount l) (hv : v.Sound config) (hnone : v.value key = none) (value : ν) :
    (v.insert key value).ByCount (l.write key value 1) := by
  have hwrite := hl.write key value 1
  have hwithout : v.queue.without key = v.queue := Pairs.filter_of_notMem (hv.notMem_iff.mpr hnone)
  rw [hwithout] at hwrite
  exact hwrite

/-- The first queued key is the one whose record has the smallest rank. -/
theorem victim?_eq (hl : v.ByCount l) : v.queue.keys.head? = l.victim?.map (·.key) := by
  rcases hl.queue_eq with ⟨rs, hperm, hsorted, hqueue⟩
  rw [hqueue, Ledger.victim?]
  cases rs with
  | nil =>
    rw [List.nil_perm.mp hperm]
    rfl
  | cons r rs =>
    rw [Record.argmin_of_sorted hperm hsorted]
    rfl

theorem evict (hl : v.ByCount l) (hv : v.Sound config) :
    (v.evict).1 = (l.evict).1 ∧ (v.evict).2.ByCount (l.evict).2 := by
  rcases hl.queue_eq with ⟨rs, hperm, hsorted, hqueue⟩
  unfold Ledger.evict Ledger.victim?
  cases rs with
  | nil =>
    rw [View.evict_of_nil hqueue, List.nil_perm.mp hperm]
    exact ⟨rfl, hl⟩
  | cons r rs =>
    have hmem : r ∈ l.records := hperm.mem_iff.mp List.mem_cons_self
    have hfind := (Ledger.find?_eq_some_iff (hl.keys_nodup hv)).mpr ⟨hmem, rfl⟩
    have hvalue : v.value r.key = some r.value := by rw [hl.value_eq, hfind, Option.map_some]
    rw [Record.argmin_of_sorted hperm hsorted, hv.evict_eq_drop hqueue, hvalue]
    exact ⟨rfl, hl.drop r.key⟩

theorem modify (hl : v.ByCount l) (hv : v.Sound config) (key : κ) (f : ν → ν)
    (hcounts : ∀ r ∈ (l.modify key f).2.records, r.count ≤ Frequency.limit) :
    v.value key = (l.modify key f).1 ∧
      ((v.touch .lfu key).set key ((v.value key).map f)).ByCount (l.modify key f).2 := by
  unfold Ledger.modify at hcounts ⊢
  cases hfind : l.find? key with
  | none =>
    have hnone : v.value key = none := by rw [hl.value_eq, hfind, Option.map_none]
    rw [hv.touch_of_none hnone, hnone, Option.map_none, View.set_of_eq hnone]
    exact ⟨rfl, hl⟩
  | some r =>
    rw [hfind] at hcounts
    have hlimit : r.count + 1 ≤ Frequency.limit := hcounts _ List.mem_cons_self
    rw [hl.value_eq, hfind]
    exact ⟨rfl, hl.touch hv hfind hlimit (f r.value)⟩

theorem put (hl : v.ByCount l) (hv : v.Sound config) (hlfu : config.policy = .lfu) (key : κ)
    (value : ν)
    (hcounts : ∀ r ∈ (l.put config.capacity key value).2.records, r.count ≤ Frequency.limit) :
    (v.put config key value).1 = (l.put config.capacity key value).1 ∧
      (v.put config key value).2.ByCount (l.put config.capacity key value).2 := by
  unfold Ledger.put at hcounts ⊢
  unfold View.put
  rw [hl.value_eq, hlfu]
  cases hfind : l.find? key with
  | some r =>
    rw [hfind] at hcounts
    have hlimit : r.count + 1 ≤ Frequency.limit := hcounts _ List.mem_cons_self
    exact ⟨rfl, hl.touch hv hfind hlimit value⟩
  | none =>
    have hnone : v.value key = none := by rw [hl.value_eq, hfind, Option.map_none]
    rcases hv.makeRoom with ⟨hsound, -, habsent⟩
    rw [hv.makeRoom_eq, hl.length_eq] at hsound habsent ⊢
    by_cases hfull : l.records.length = config.capacity
    · -- the ledger is full: its victim makes room
      rcases hl.evict hv with ⟨hentry, hrest⟩
      rw [if_pos hfull] at hsound habsent ⊢
      rw [if_pos hfull]
      exact ⟨hentry, hrest.insert hsound (habsent key hnone) value⟩
    · rw [if_neg hfull, if_neg hfull]
      exact ⟨rfl, hl.insert hv hnone value⟩

/-- A call on the view is the same call on the ledger. -/
theorem perform (hl : v.ByCount l) (hv : v.Sound config) (hlfu : config.policy = .lfu)
    (call : Call κ ν)
    (hcounts : ∀ r ∈ (l.perform config.capacity call).2.records, r.count ≤ Frequency.limit) :
    (v.perform config call).1 = (l.perform config.capacity call).1 ∧
      (v.perform config call).2.ByCount (l.perform config.capacity call).2 := by
  have hpresent : ∀ key, (v.value key).isSome = (l.find? key).isSome := by
    intro key
    rw [hl.value_eq, Option.isSome_map]
  cases call with
  | put key value =>
    rcases hl.put hv hlfu key value hcounts with ⟨hanswer, hrest⟩
    exact ⟨congrArg Answer.entry hanswer, hrest⟩
  | get key =>
    rcases hl.modify hv key id hcounts with ⟨hanswer, hrest⟩
    rw [Option.map_id_fun, id_eq, touch_set_value, ← hlfu] at hrest
    exact ⟨congrArg Answer.value hanswer, hrest⟩
  | modify key f =>
    rcases hl.modify hv key f hcounts with ⟨hanswer, hrest⟩
    rw [← hlfu] at hrest
    exact ⟨congrArg Answer.value hanswer, hrest⟩
  | remove key => exact ⟨congrArg Answer.value (hl.value_eq key), hl.drop key⟩
  | erase key => exact ⟨congrArg Answer.flag (hpresent key), hl.drop key⟩
  | pop =>
    rcases hl.evict hv with ⟨hanswer, hrest⟩
    exact ⟨congrArg Answer.entry hanswer, hrest⟩
  | clear =>
    refine ⟨rfl, ⟨[], List.Perm.refl _, List.Pairwise.nil, rfl⟩, ?_, fun _ => rfl⟩
    intro r hr
    exact absurd hr List.not_mem_nil
  | contains key => exact ⟨congrArg Answer.flag (hpresent key), hl⟩
  | peek key => exact ⟨congrArg Answer.value (hl.value_eq key), hl⟩
  | victim => exact ⟨congrArg Answer.key hl.victim?_eq, hl⟩
  | frequency key =>
    refine ⟨?_, hl⟩
    show Answer.count (if config.policy = .lfu then v.queue.lookup key else none) = _
    rw [if_pos hlfu, hl.lookup_eq hv]
    rfl

/-- Calls on the view are the same calls on the ledger. -/
theorem run (hl : v.ByCount l) (hv : v.Sound config) (hlfu : config.policy = .lfu)
    (calls : List (Call κ ν))
    (hcounts : ∀ prior, prior <+: calls →
      ∀ r ∈ (l.run config.capacity prior).2.records, r.count ≤ Frequency.limit) :
    (v.run config calls).1 = (l.run config.capacity calls).1 := by
  induction calls generalizing v l with
  | nil => rfl
  | cons call calls ih =>
    have hfirst : [call] <+: call :: calls := List.prefix_append [call] calls
    rcases hl.perform hv hlfu call (hcounts [call] hfirst) with ⟨hanswer, hrest⟩
    -- a prefix of the remaining calls is a prefix of all calls without the first
    have hanswers := ih hrest (hv.perform call) fun prior hprior =>
      hcounts (call :: prior) ((List.prefix_cons_inj call).mpr hprior)
    exact congrArg₂ List.cons hanswer hanswers

end ByCount

end View

namespace Cache

variable {κ ν : Type} [DecidableEq κ] [Hashable κ]

/-- A cache under `lfu` answers every history of calls as the ledger does, as
long as no access count passes the limit on the way. -/
theorem lfu_run_eq (config : Config) (calls : List (Call κ ν))
    (hcounts : ∀ prior, prior <+: calls →
      ∀ r ∈ (Ledger.run config.capacity {} prior).2.records, r.count ≤ Frequency.limit) :
    ((new { config with policy := .lfu } : Cache κ ν).run calls).1 =
      (Ledger.run config.capacity {} calls).1 := by
  rcases (Shows.new { config with policy := .lfu }).run View.Sound.empty calls with ⟨hview, -, -⟩
  rw [hview]
  exact View.ByCount.empty.run View.Sound.empty rfl calls hcounts

/-- A cache for two entries, in which the less recently touched of the keys 1
and 2 leaves, and key 1 starts again at one access when it comes back. -/
theorem lfu_run_eq_reinsertion :
    let config : Config := ⟨2, .lfu, by decide⟩
    let calls : List (Call Nat Nat) :=
      [.put 1 10, .put 2 20, .get 1, .get 2, .frequency 1, .put 3 30, .put 1 11, .frequency 1,
        .frequency 2, .victim]
    (∀ prior, prior <+: calls →
      ∀ r ∈ (Ledger.run config.capacity {} prior).2.records, r.count ≤ Frequency.limit) ∧
    ((new { config with policy := .lfu } : Cache Nat Nat).run calls).1 =
      [.entry none, .entry none, .value (some 10), .value (some 20), .count (some 2),
        .entry (some (1, 10)), .entry (some (3, 30)), .count (some 1), .count (some 2),
        .key (some 1)] := by
  intro config calls
  have hcounts : ∀ prior, prior <+: calls →
      ∀ r ∈ (Ledger.run config.capacity {} prior).2.records, r.count ≤ Frequency.limit := by
    intro prior hprior
    have hall : ∀ prior ∈ calls.inits,
        ∀ r ∈ (Ledger.run config.capacity {} prior).2.records, r.count ≤ Frequency.limit := by
      decide
    exact hall prior ((List.mem_inits prior calls).mpr hprior)
  exact ⟨hcounts, (lfu_run_eq config calls hcounts).trans (by decide)⟩

end Cache

end CacheLab
