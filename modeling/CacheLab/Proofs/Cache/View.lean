import CacheLab.Cache.Call
import CacheLab.Proofs.EvictionQueue
import Mathlib.Logic.Function.Basic

/-!
# CacheLab.Proofs.Cache.View — what a cache is to its callers

All answers of a cache depend on two things: the queue of its keys with their
access counts, and the value under each key. `View` is this pair and
`View.perform` makes one call on it, for every policy. `View.Sound` is the
invariant of views: the queued keys are distinct, they are the keys that have a
value, and there are at most as many as the capacity allows.
-/

namespace CacheLab

/-- The queue of the keys and the value under each key. -/
structure View (κ ν : Type) where
  queue : EvictionQueue κ
  value : κ → Option ν

namespace View

variable {κ ν : Type} [DecidableEq κ]

/-- The view of an empty cache. -/
def empty : View κ ν := ⟨[], fun _ => none⟩

/-- Puts a value under `key`. -/
def set (v : View κ ν) (key : κ) (value : Option ν) : View κ ν :=
  { v with value := Function.update v.value key value }

/-- Notes an access to `key`. -/
def touch (policy : Policy) (v : View κ ν) (key : κ) : View κ ν :=
  { v with queue := v.queue.access policy key }

/-- Takes `key` out. -/
def drop (v : View κ ν) (key : κ) : View κ ν :=
  { v.set key none with queue := v.queue.without key }

/-- Takes the first key out and answers its entry. -/
def evict (v : View κ ν) : Option (κ × ν) × View κ ν :=
  match v.queue with
  | [] => (none, v)
  | (key, _) :: queue => ((v.value key).map (key, ·), { v.set key none with queue })

/-- Evicts if there is no room for another key. -/
def makeRoom (capacity : Nat) (v : View κ ν) : Option (κ × ν) × View κ ν :=
  if capacity ≤ v.queue.length then v.evict else (none, v)

/-- Adds a new key. -/
def insert (v : View κ ν) (key : κ) (value : ν) : View κ ν :=
  { v.set key (some value) with queue := v.queue.insert key }

/-- Updates a present key, which is an access, or inserts an absent one. -/
def put (config : Config) (v : View κ ν) (key : κ) (value : ν) : Option (κ × ν) × View κ ν :=
  match v.value key with
  | some old => (some (key, old), (v.touch config.policy key).set key (some value))
  | none =>
    let (evicted, v) := v.makeRoom config.capacity
    (evicted, v.insert key value)

/-- Makes one call. -/
def perform (config : Config) (v : View κ ν) : Call κ ν → Answer κ ν × View κ ν
  | .put key value => let (entry, v) := v.put config key value; (.entry entry, v)
  | .get key => (.value (v.value key), v.touch config.policy key)
  | .modify key f =>
    (.value (v.value key), (v.touch config.policy key).set key ((v.value key).map f))
  | .remove key => (.value (v.value key), v.drop key)
  | .erase key => (.flag (v.value key).isSome, v.drop key)
  | .pop => let (entry, v) := v.evict; (.entry entry, v)
  | .clear => (.done, empty)
  | .contains key => (.flag (v.value key).isSome, v)
  | .peek key => (.value (v.value key), v)
  | .victim => (.key v.queue.keys.head?, v)
  | .frequency key => (.count (if config.policy = .lfu then v.queue.lookup key else none), v)

/-- Makes the calls one after another. -/
def run (config : Config) (v : View κ ν) : List (Call κ ν) → List (Answer κ ν) × View κ ν
  | [] => ([], v)
  | call :: calls =>
    let (answer, v) := v.perform config call
    let (answers, v) := v.run config calls
    (answer :: answers, v)

theorem value_set (v : View κ ν) (key : κ) (value : Option ν) (k : κ) :
    (v.set key value).value k = if k = key then value else v.value k :=
  Function.update_apply _ _ _ _

theorem set_of_eq {v : View κ ν} {key : κ} {value : Option ν} (hvalue : v.value key = value) :
    v.set key value = v := by
  rw [set, ← hvalue, Function.update_eq_self]

theorem touch_set_value (v : View κ ν) (policy : Policy) (key : κ) :
    (v.touch policy key).set key (v.value key) = v.touch policy key :=
  set_of_eq rfl

theorem value_drop (v : View κ ν) (key k : κ) :
    (v.drop key).value k = if k = key then none else v.value k :=
  v.value_set key none k

theorem value_insert (v : View κ ν) (key : κ) (value : ν) (k : κ) :
    (v.insert key value).value k = if k = key then some value else v.value k :=
  v.value_set key (some value) k

theorem keys_insert_perm (v : View κ ν) (key : κ) (value : ν) :
    (v.insert key value).queue.keys.Perm (key :: v.queue.keys) :=
  EvictionQueue.keys_place_perm _ _ _

theorem evict_of_nil {v : View κ ν} (hqueue : v.queue = []) : v.evict = (none, v) := by
  rw [evict, hqueue]

theorem evict_of_cons {v : View κ ν} {p : κ × Nat} {queue : EvictionQueue κ}
    (hqueue : v.queue = p :: queue) :
    v.evict = ((v.value p.1).map (p.1, ·), { v.set p.1 none with queue }) := by
  rw [evict, hqueue]

/-! ## The invariant -/

/-- The queued keys are distinct, they are the keys with a value, and they fit. -/
structure Sound (config : Config) (v : View κ ν) : Prop where
  keys_nodup : v.queue.keys.Nodup
  mem_keys_iff : ∀ key, key ∈ v.queue.keys ↔ (v.value key).isSome
  length_le : v.queue.length ≤ config.capacity

namespace Sound

variable {config : Config} {v : View κ ν} {key : κ}

omit [DecidableEq κ] in
theorem empty : Sound config (View.empty : View κ ν) where
  keys_nodup := List.nodup_nil
  mem_keys_iff _ := by simp [View.empty, EvictionQueue.keys]
  length_le := Nat.zero_le _

omit [DecidableEq κ] in
theorem notMem_iff (hv : v.Sound config) : key ∉ v.queue.keys ↔ v.value key = none := by
  rw [hv.mem_keys_iff, Bool.not_eq_true, Option.isSome_eq_false_iff, Option.isNone_iff_eq_none]

omit [DecidableEq κ] in
/-- A permutation of the queue leaves the view sound. -/
theorem reorder (hv : v.Sound config) {queue : EvictionQueue κ}
    (hperm : queue.keys.Perm v.queue.keys) :
    Sound config { v with queue } where
  keys_nodup := hperm.nodup_iff.mpr hv.keys_nodup
  mem_keys_iff key := hperm.mem_iff.trans (hv.mem_keys_iff key)
  length_le := by
    have hlength := hperm.length_eq
    rw [EvictionQueue.length_keys, EvictionQueue.length_keys] at hlength
    rw [hlength]
    exact hv.length_le

/-- An absent key is not queued, so an access to it changes nothing. -/
theorem touch_of_none (hv : v.Sound config) (hnone : v.value key = none) (policy : Policy) :
    v.touch policy key = v := by
  rw [View.touch, EvictionQueue.access_of_notMem (hv.notMem_iff.mpr hnone)]

theorem drop_of_none (hv : v.Sound config) (hnone : v.value key = none) : v.drop key = v := by
  have hwithout : v.queue.without key = v.queue := Pairs.filter_of_notMem (hv.notMem_iff.mpr hnone)
  rw [View.drop, set_of_eq hnone, hwithout]

theorem touch (hv : v.Sound config) (policy : Policy) (key : κ) :
    (v.touch policy key).Sound config :=
  hv.reorder (EvictionQueue.keys_access_perm policy hv.keys_nodup key)

/-- Changing the value of a present key. -/
theorem set (hv : v.Sound config) {value : Option ν} (hsome : value.isSome = (v.value key).isSome) :
    (v.set key value).Sound config where
  keys_nodup := hv.keys_nodup
  mem_keys_iff k := by
    rw [value_set]
    by_cases hk : k = key
    · rw [if_pos hk, hsome, hk]
      exact hv.mem_keys_iff key
    · rw [if_neg hk]
      exact hv.mem_keys_iff k
  length_le := hv.length_le

theorem drop (hv : v.Sound config) (key : κ) : (v.drop key).Sound config where
  keys_nodup := by
    rw [View.drop, EvictionQueue.keys_without]
    exact hv.keys_nodup.filter _
  mem_keys_iff k := by
    rw [value_drop, View.drop, EvictionQueue.mem_keys_without, hv.mem_keys_iff]
    by_cases hk : k = key <;> simp [hk]
  length_le := Nat.le_trans (List.length_filter_le _ _) hv.length_le

/-- Dropping the first key is what an eviction does. -/
theorem evict_eq_drop (hv : v.Sound config) {count : Nat} {queue : EvictionQueue κ}
    (hqueue : v.queue = (key, count) :: queue) :
    v.evict = ((v.value key).map (key, ·), v.drop key) := by
  have hnodup := hv.keys_nodup
  rw [hqueue] at hnodup
  have hwithout : v.queue.without key = queue := by
    rw [hqueue]
    exact EvictionQueue.without_head hnodup
  rw [evict_of_cons hqueue, View.drop, hwithout]

theorem evict (hv : v.Sound config) : (v.evict).2.Sound config := by
  cases hqueue : v.queue with
  | nil =>
    rw [evict_of_nil hqueue]
    exact hv
  | cons p queue =>
    rw [hv.evict_eq_drop hqueue]
    exact hv.drop p.1

theorem insert (hv : v.Sound config) (hfresh : v.value key = none)
    (hroom : v.queue.length < config.capacity) (value : ν) : (v.insert key value).Sound config where
  keys_nodup := by
    rw [(v.keys_insert_perm key value).nodup_iff, List.nodup_cons]
    exact ⟨hv.notMem_iff.mpr hfresh, hv.keys_nodup⟩
  mem_keys_iff k := by
    rw [(v.keys_insert_perm key value).mem_iff, List.mem_cons, hv.mem_keys_iff, value_insert]
    by_cases hk : k = key <;> simp [hk]
  length_le := by
    have hperm : (v.insert key value).queue.Perm ((key, Frequency.initial) :: v.queue) :=
      EvictionQueue.place_perm _ _ _
    rw [hperm.length_eq, List.length_cons]
    exact hroom

/-- A cache evicts exactly if it is full. -/
theorem makeRoom_eq (hv : v.Sound config) : v.makeRoom config.capacity =
    if v.queue.length = config.capacity then v.evict else (none, v) := by
  have hlength := hv.length_le
  unfold View.makeRoom
  by_cases hfull : v.queue.length = config.capacity
  · rw [if_pos hfull, if_pos (Nat.le_of_eq hfull.symm)]
  · have hroom : ¬ config.capacity ≤ v.queue.length := by omega
    rw [if_neg hfull, if_neg hroom]

/-- After making room there is room, and no key is new. -/
theorem makeRoom (hv : v.Sound config) :
    (v.makeRoom config.capacity).2.Sound config ∧
      (v.makeRoom config.capacity).2.queue.length < config.capacity ∧
      ∀ key, v.value key = none → (v.makeRoom config.capacity).2.value key = none := by
  rw [hv.makeRoom_eq]
  have hlength := hv.length_le
  by_cases hfull : v.queue.length = config.capacity
  · have hpos := config.capacity_pos
    rw [if_pos hfull]
    cases hqueue : v.queue with
    | nil =>
      -- a full cache is not empty, since the capacity is not zero
      rw [hqueue, List.length_nil] at hfull
      omega
    | cons p queue =>
      have hevict : v.evict.2 = ⟨queue, (v.set p.1 none).value⟩ :=
        congrArg Prod.snd (evict_of_cons hqueue)
      refine ⟨hv.evict, ?_, ?_⟩
      · rw [hqueue, List.length_cons] at hlength
        rw [hevict]
        exact hlength
      · intro key hnone
        rw [hevict]
        show (v.set p.1 none).value key = none
        rw [value_set, hnone, ite_self]
  · rw [if_neg hfull]
    exact ⟨hv, Nat.lt_of_le_of_ne hlength hfull, fun _ hnone => hnone⟩

theorem put (hv : v.Sound config) (key : κ) (value : ν) :
    (v.put config key value).2.Sound config := by
  unfold View.put
  cases hvalue : v.value key with
  | some old =>
    -- the key had a value and has one now
    apply (hv.touch config.policy key).set
    show (some value).isSome = (v.value key).isSome
    rw [hvalue]
    rfl
  | none =>
    rcases hv.makeRoom with ⟨hroom, hlength, hnone⟩
    exact hroom.insert (hnone key hvalue) hlength value

/-- Each call keeps the invariant. -/
theorem perform (hv : v.Sound config) (call : Call κ ν) :
    (v.perform config call).2.Sound config := by
  cases call with
  | put key value => exact hv.put key value
  | get key => exact hv.touch config.policy key
  | modify key f =>
    apply (hv.touch config.policy key).set
    show ((v.value key).map f).isSome = (v.value key).isSome
    rw [Option.isSome_map]
  | remove key => exact hv.drop key
  | erase key => exact hv.drop key
  | pop => exact hv.evict
  | clear => exact Sound.empty
  | contains key => exact hv
  | peek key => exact hv
  | victim => exact hv
  | frequency key => exact hv

end Sound

end View

end CacheLab
