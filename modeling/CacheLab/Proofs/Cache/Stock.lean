import CacheLab.Proofs.Cache.Events
import Mathlib.Data.Finset.Card

/-!
# CacheLab.Proofs.Cache.Stock — what a bounded cache has in stock

A bounded cache evicts only if it is full. So whatever victims it picks, it holds only keys
that were put into it, and while there is room it holds all of them.

* `Stock capacity known keys` says this of the keys that are held and of those that are
  known to have been put. It fixes their number (`Stock.card_eq`).
* `Stock.insert` is the step lemma. It does not ask which key is displaced, only when one is.
* `Cache.Stocked` is the stock of a cache, kept by lookups and by puts.
-/

namespace CacheLab

variable {κ ν : Type} [DecidableEq κ]

/-- The keys that a store of `capacity` entries holds, of those that were put into it. -/
structure Stock (capacity : Nat) (known : Finset κ) (keys : Multiset κ) : Prop where
  keys_nodup : keys.Nodup
  card_le : keys.card ≤ capacity
  mem_known : ∀ key ∈ keys, key ∈ known
  /-- While there is room no key has left. -/
  mem_keys : keys.card < capacity → ∀ key ∈ known, key ∈ keys

namespace Stock

variable {capacity : Nat} {known : Finset κ} {keys keys' : Multiset κ} {key : κ} {out : Option κ}

omit [DecidableEq κ] in
theorem empty (capacity : Nat) : Stock capacity ∅ (0 : Multiset κ) where
  keys_nodup := Multiset.nodup_zero
  card_le := Nat.zero_le capacity
  mem_known _ hmem := absurd hmem (Multiset.notMem_zero _)
  mem_keys _ key hmem := absurd hmem (Finset.notMem_empty key)

/-- A full store holds as many entries as it can, and another one holds the known keys. -/
theorem card_eq (hs : Stock capacity known keys) : keys.card = min capacity known.card := by
  have hcard : keys.toFinset.card = keys.card := Multiset.toFinset_card_of_nodup hs.keys_nodup
  have hle : keys.card ≤ known.card := by
    rw [← hcard]
    apply Finset.card_le_card
    intro key hkey
    exact hs.mem_known key (Multiset.mem_toFinset.mp hkey)
  have hfits := hs.card_le
  by_cases hroom : keys.card < capacity
  · have hge : known.card ≤ keys.card := by
      rw [← hcard]
      apply Finset.card_le_card
      intro key hkey
      exact Multiset.mem_toFinset.mpr (hs.mem_keys hroom key hkey)
    omega
  · omega

/-- A new key comes in, and some key leaves for it exactly if the store was full. -/
theorem insert (hs : Stock capacity known keys) (hfresh : key ∉ keys)
    (hfull : out.isSome = true ↔ keys.card = capacity)
    (hflow : keys + {key} = ↑out.toList + keys') : Stock capacity (known ∪ {key}) keys' := by
  have hfits := hs.card_le
  have hcard := congrArg Multiset.card hflow
  rw [Multiset.card_add, Multiset.card_singleton, Multiset.card_add, Multiset.coe_card] at hcard
  have hall : (keys + {key}).Nodup := by
    rw [add_comm, Multiset.singleton_add, Multiset.nodup_cons]
    exact ⟨hfresh, hs.keys_nodup⟩
  have hle : keys' ≤ keys + {key} := by
    rw [hflow]
    exact Multiset.le_add_left _ _
  constructor
  · exact Multiset.nodup_of_le hle hall
  · cases out with
    | none =>
      have hroom : keys.card ≠ capacity := fun heq => nomatch hfull.mpr heq
      rw [Option.toList_none, List.length_nil] at hcard
      omega
    | some k =>
      rw [Option.toList_some, List.length_singleton] at hcard
      omega
  · intro k hk
    rcases Multiset.mem_add.mp (Multiset.mem_of_le hle hk) with hold | hnew
    · exact Finset.mem_union_left _ (hs.mem_known k hold)
    · exact Finset.mem_union_right _ (Finset.mem_singleton.mpr (Multiset.mem_singleton.mp hnew))
  · intro hroom k hk
    cases out with
    | none =>
      -- nothing has left, so the keys are those before and the new one
      rw [Option.toList_none, Multiset.coe_nil, zero_add] at hflow
      rw [Option.toList_none, List.length_nil] at hcard
      rw [← hflow]
      rcases Finset.mem_union.mp hk with hold | hnew
      · exact Multiset.mem_add.mpr (Or.inl (hs.mem_keys (by omega) k hold))
      · exact Multiset.mem_add.mpr
          (Or.inr (Multiset.mem_singleton.mpr (Finset.mem_singleton.mp hnew)))
    | some other =>
      have hwas : keys.card = capacity := hfull.mp rfl
      rw [Option.toList_some, List.length_singleton] at hcard
      omega

/-- There are more keys to hold than there is room for, if a new one comes to a full store. -/
theorem lt_card_of_full (hs : Stock capacity known keys) (hfresh : key ∉ keys)
    (hfull : keys.card = capacity) : capacity < (known ∪ {key}).card := by
  have hall : (key ::ₘ keys).Nodup := Multiset.nodup_cons.mpr ⟨hfresh, hs.keys_nodup⟩
  have hcard := Multiset.toFinset_card_of_nodup hall
  rw [Multiset.card_cons, hfull] at hcard
  have hsubset : (key ::ₘ keys).toFinset ⊆ known ∪ {key} := by
    intro k hk
    rcases Multiset.mem_cons.mp (Multiset.mem_toFinset.mp hk) with rfl | hold
    · exact Finset.mem_union_right _ (Finset.mem_singleton_self k)
    · exact Finset.mem_union_left _ (hs.mem_known k hold)
  have hle := Finset.card_le_card hsubset
  omega

/-- A known key that is put again changes nothing. -/
theorem union_of_mem (hs : Stock capacity known keys) (hmem : key ∈ keys) :
    Stock capacity (known ∪ {key}) keys := by
  have hsame : known ∪ {key} = known := by
    rw [Finset.union_eq_left, Finset.singleton_subset_iff]
    exact hs.mem_known key hmem
  rwa [hsame]

end Stock

/-! ## Entries and their keys -/

omit [DecidableEq κ] in
/-- The keys of entries are those that have a value. -/
theorem mem_keys_iff {held : Multiset (κ × ν)} {value : κ → Option ν}
    (hheld : ∀ key x, (key, x) ∈ held ↔ value key = some x) (key : κ) :
    key ∈ held.map (·.1) ↔ (value key).isSome = true := by
  rw [Multiset.mem_map, Option.isSome_iff_exists]
  constructor
  · rintro ⟨⟨k, x⟩, hmem, rfl⟩
    exact ⟨x, (hheld k x).mp hmem⟩
  · rintro ⟨x, hx⟩
    exact ⟨(key, x), (hheld key x).mpr hx, rfl⟩

omit [DecidableEq κ] in
/-- What is true of the entries that come and go is true of their keys. -/
theorem keys_flow {held held' : Multiset (κ × ν)} {key : κ} {value : ν} {out : Option (κ × ν)}
    (hflow : held + {(key, value)} = ↑out.toList + held') :
    held.map (·.1) + {key} = ↑(out.map (·.1)).toList + held'.map (·.1) := by
  have hkeys := congrArg (Multiset.map (·.1)) hflow
  rw [Multiset.map_add, Multiset.map_add, Multiset.map_singleton, Multiset.map_coe] at hkeys
  rw [hkeys, Option.toList_map]

namespace Cache

variable [Hashable κ] {c : Cache κ ν} {config : Config} {known : Finset κ} {key : κ}

/-! ## Puts into a full cache -/

namespace Sound

/-- An entry is evicted unless there is none. -/
theorem evict_isSome (hc : c.Sound config) (hpos : 0 < c.size) : (c.evict).1.isSome = true := by
  rcases hc with ⟨v, hshows, hsound⟩
  rw [(hshows.evict hsound).1]
  rw [hshows.size_eq hsound] at hpos
  cases hqueue : v.queue with
  | nil =>
    rw [hqueue] at hpos
    exact absurd hpos (Nat.lt_irrefl 0)
  | cons p queue =>
    have hmem : p.1 ∈ v.queue.keys := by
      rw [hqueue]
      exact List.mem_cons_self
    rw [View.evict_of_cons hqueue, Option.isSome_map]
    exact (hsound.mem_keys_iff p.1).mp hmem

/-- A put of an absent key displaces an entry exactly if the cache is full. -/
theorem put_isSome (hc : c.Sound config) (hnone : c.peek? key = none) (value : ν) :
    (c.put key value).1.isSome = true ↔ c.size = config.capacity := by
  have hle := hc.size_le
  have hpos := config.capacity_pos
  rw [put_fst_of_none hnone, hc.capacity_eq]
  by_cases hfull : config.capacity ≤ c.size
  · rw [if_pos hfull]
    have hevict := hc.evict_isSome (by omega)
    constructor
    · intro _
      omega
    · intro _
      exact hevict
  · rw [if_neg hfull]
    constructor
    · intro h
      cases h
    · intro h
      omega

end Sound

/-! ## The stock of a cache -/

/-- The keys that a cache holds. -/
def heldKeys (c : Cache κ ν) : Multiset κ := c.held.map (·.1)

theorem card_heldKeys (c : Cache κ ν) : c.heldKeys.card = c.size := by
  rw [heldKeys, Multiset.card_map, card_held]

theorem mem_heldKeys : key ∈ c.heldKeys ↔ (c.peek? key).isSome = true :=
  mem_keys_iff (fun _ _ => Store.mem_pairs) key

theorem notMem_heldKeys : key ∉ c.heldKeys ↔ c.peek? key = none := by
  rw [mem_heldKeys, Bool.not_eq_true, Option.isSome_eq_false_iff, Option.isNone_iff_eq_none]

/-- A put adds its key to those that are held, and the key that it answers is missing then. -/
theorem heldKeys_put (c : Cache κ ν) (key : κ) (value : ν) :
    c.heldKeys + {key} =
      ↑((c.put key value).1.map (·.1)).toList + (c.put key value).2.heldKeys :=
  keys_flow (c.held_put key value)

/-- A cache that calls can reach, with a stock of the known keys. -/
structure Stocked (config : Config) (known : Finset κ) (c : Cache κ ν) : Prop where
  sound : c.Sound config
  stock : Stock config.capacity known c.heldKeys

namespace Stocked

theorem new (config : Config) : Stocked config ∅ (Cache.new config : Cache κ ν) where
  sound := Sound.new config
  stock := by
    rw [heldKeys, held_new, Multiset.map_zero]
    exact .empty config.capacity

theorem size_eq (hc : Stocked config known c) : c.size = min config.capacity known.card := by
  rw [← card_heldKeys]
  exact hc.stock.card_eq

/-- A key that is found is known. -/
theorem mem_known_of_found (hc : Stocked config known c)
    (hfound : (c.get key).1.isSome = true) : key ∈ known := by
  rw [get_fst] at hfound
  exact hc.stock.mem_known key (mem_heldKeys.mpr hfound)

theorem get (hc : Stocked config known c) (key : κ) : Stocked config known (c.get key).2 where
  sound := hc.sound.perform (.get key)
  stock := by
    rw [heldKeys, held_get]
    exact hc.stock

/-- The key of a put is known from then on. -/
theorem put (hc : Stocked config known c) (key : κ) (value : ν) :
    Stocked config (known ∪ {key}) (c.put key value).2 where
  sound := hc.sound.perform (.put key value)
  stock := by
    have hflow := c.heldKeys_put key value
    cases hpeek : c.peek? key with
    | some old =>
      -- the key takes its own place
      have hmem : key ∈ c.heldKeys := by
        rw [mem_heldKeys, hpeek]
        rfl
      rw [put_fst_of_some hpeek, add_comm] at hflow
      have hsame : c.heldKeys = (c.put key value).2.heldKeys := add_left_cancel hflow
      rw [← hsame]
      exact hc.stock.union_of_mem hmem
    | none =>
      have hfull := hc.sound.put_isSome hpeek value
      rw [← Option.isSome_map (f := Prod.fst), ← card_heldKeys] at hfull
      exact hc.stock.insert (notMem_heldKeys.mpr hpeek) hfull hflow

end Stocked

end Cache

end CacheLab
