import CacheLab.Proofs.Cache.LockStep

/-!
# CacheLab.Proofs.Cache.RecencyList — a cache under `lru` is one list

The plain model of a cache that evicts the least recently used entry: one list
of pairs, most recently used first, of at most `capacity` pairs.

* A hit of `get` or `modify` and a `put` of a present key move its pair to the
  front.
* A `put` of an absent key drops the last pair if the list is full, and adds the
  new pair at the front.

`lru_run_eq`: a cache under `lru` answers every history of calls as this list
does. `Cache.Holds` says that a cache is such a list, which each call keeps
(`Holds.perform`) and which a drain empties from the back (`Holds.drain_eq`).
-/

namespace CacheLab

/-- Pairs of key and value, most recently used first. -/
abbrev RecencyList (κ ν : Type) := List (κ × ν)

namespace RecencyList

variable {κ ν : Type} [DecidableEq κ]

/-- The list without the pair of `key`. -/
def without (l : RecencyList κ ν) (key : κ) : RecencyList κ ν := l.filter (·.1 ≠ key)

/-- Looks `key` up, moves its pair to the front and changes the value there. -/
def modify (l : RecencyList κ ν) (key : κ) (f : ν → ν) : Option ν × RecencyList κ ν :=
  match l.lookup key with
  | none => (none, l)
  | some value => (some value, (key, f value) :: l.without key)

/-- Puts `value` under `key` at the front and answers the pair that it displaces. -/
def put (capacity : Nat) (l : RecencyList κ ν) (key : κ) (value : ν) :
    Option (κ × ν) × RecencyList κ ν :=
  match l.lookup key with
  | some old => (some (key, old), (key, value) :: l.without key)
  | none =>
    if l.length = capacity then
      (l.getLast?, (key, value) :: l.dropLast)
    else
      (none, (key, value) :: l)

/-- Makes one call. -/
def perform (capacity : Nat) (l : RecencyList κ ν) : Call κ ν → Answer κ ν × RecencyList κ ν
  | .put key value => let (entry, l) := l.put capacity key value; (.entry entry, l)
  | .get key => let (value, l) := l.modify key id; (.value value, l)
  | .modify key f => let (value, l) := l.modify key f; (.value value, l)
  | .remove key => (.value (l.lookup key), l.without key)
  | .erase key => (.flag (l.lookup key).isSome, l.without key)
  | .pop => (.entry l.getLast?, l.dropLast)
  | .clear => (.done, [])
  | .contains key => (.flag (l.lookup key).isSome, l)
  | .peek key => (.value (l.lookup key), l)
  | .victim => (.key (l.getLast?.map (·.1)), l)
  | .frequency _ => (.count none, l)

/-- Makes the calls one after another. -/
def run (capacity : Nat) (l : RecencyList κ ν) :
    List (Call κ ν) → List (Answer κ ν) × RecencyList κ ν
  | [] => ([], l)
  | call :: calls =>
    let (answer, l) := l.perform capacity call
    let (answers, l) := l.run capacity calls
    (answer :: answers, l)

section

variable {l : RecencyList κ ν} {capacity : Nat} {key : κ} {value : ν}

theorem without_of_none (hnone : l.lookup key = none) : l.without key = l :=
  Pairs.filter_of_notMem (Pairs.lookup_eq_none_iff_notMem.mp hnone)

theorem keys_without (l : RecencyList κ ν) (key : κ) :
    (l.without key).map (·.1) = (l.map (·.1)).filter (· ≠ key) := by
  rw [without, List.filter_map]
  rfl

theorem modify_of_none (hnone : l.lookup key = none) (f : ν → ν) : l.modify key f = (none, l) := by
  rw [modify, hnone]

theorem modify_of_some (hsome : l.lookup key = some value) (f : ν → ν) :
    l.modify key f = (some value, (key, f value) :: l.without key) := by
  rw [modify, hsome]

theorem modify_fst (l : RecencyList κ ν) (key : κ) (f : ν → ν) :
    (l.modify key f).1 = l.lookup key := by
  cases hlookup : l.lookup key with
  | none => rw [modify_of_none hlookup]
  | some value => rw [modify_of_some hlookup]

theorem put_of_some {old : ν} (hsome : l.lookup key = some old) :
    l.put capacity key value = (some (key, old), (key, value) :: l.without key) := by
  rw [put, hsome]

theorem put_of_none (hnone : l.lookup key = none) :
    l.put capacity key value =
      (if l.length = capacity then l.getLast? else none,
        (key, value) :: if l.length = capacity then l.dropLast else l) := by
  rw [put, hnone]
  dsimp only
  split <;> rfl

/-- The keys are distinct and there is room for all pairs. -/
structure Fits (capacity : Nat) (l : RecencyList κ ν) : Prop where
  nodup : (l.map (·.1)).Nodup
  length_le : l.length ≤ capacity

/-- Taking a present key out takes its pair out. -/
theorem Fits.without_perm (hl : l.Fits capacity) (hlookup : l.lookup key = some value) :
    ((key, value) :: l.without key).Perm l := by
  have hnodup := hl.nodup
  rcases List.append_of_mem (Pairs.mem_of_lookup_eq_some hlookup) with ⟨xs, ys, rfl⟩
  rw [List.map_append, List.map_cons, List.nodup_middle, List.nodup_cons, ← List.map_append]
    at hnodup
  rw [without, Pairs.filter_middle hnodup.1]
  exact List.perm_middle.symm

theorem Fits.length_without (hl : l.Fits capacity) (hlookup : l.lookup key = some value) :
    (l.without key).length + 1 = l.length :=
  (hl.without_perm hlookup).length_eq

/-- A key may move to the front with any value. -/
theorem Fits.refresh (hl : l.Fits capacity) {old : ν} (hsome : l.lookup key = some old)
    (value : ν) : RecencyList.Fits capacity ((key, value) :: l.without key) where
  nodup := by
    rw [without, List.map_cons, List.nodup_cons]
    refine ⟨?_, hl.nodup.sublist (List.filter_sublist.map _)⟩
    intro hmem
    rcases List.mem_map.mp hmem with ⟨p, hp, hkey⟩
    exact of_decide_eq_true (List.mem_filter.mp hp).2 hkey
  length_le := by
    rw [List.length_cons, hl.length_without hsome]
    exact hl.length_le

theorem Fits.modify (hl : l.Fits capacity) (key : κ) (f : ν → ν) :
    RecencyList.Fits capacity (l.modify key f).2 := by
  cases hlookup : l.lookup key with
  | none =>
    rw [modify_of_none hlookup]
    exact hl
  | some value =>
    rw [modify_of_some hlookup]
    exact hl.refresh hlookup (f value)

theorem Fits.put (hl : l.Fits capacity) (hpos : 0 < capacity) (key : κ) (value : ν) :
    RecencyList.Fits capacity (l.put capacity key value).2 := by
  cases hlookup : l.lookup key with
  | some old =>
    rw [put_of_some hlookup]
    exact hl.refresh hlookup value
  | none =>
    rw [put_of_none hlookup]
    have hfresh : key ∉ l.map (·.1) := Pairs.lookup_eq_none_iff_notMem.mp hlookup
    have hle := hl.length_le
    refine ⟨?_, ?_⟩
    · rw [List.map_cons, List.nodup_cons]
      split
      · have hsublist : (l.dropLast.map (·.1)).Sublist (l.map (·.1)) :=
          (List.dropLast_sublist l).map _
        exact ⟨fun hmem => hfresh (hsublist.mem hmem), hl.nodup.sublist hsublist⟩
      · exact ⟨hfresh, hl.nodup⟩
    · rw [List.length_cons]
      split
      · rw [List.length_dropLast]
        omega
      · omega

end

end RecencyList

namespace View

open EvictionQueue

variable {κ ν : Type} [DecidableEq κ] {v : View κ ν} {l : RecencyList κ ν} {config : Config}
  {key : κ}

/-- The queue is the list from back to front and the values are those of its pairs. -/
structure ByRecency (v : View κ ν) (l : RecencyList κ ν) : Prop where
  queue_eq : v.queue = uniform (l.map (·.1)).reverse
  value_eq : ∀ key, v.value key = l.lookup key

namespace ByRecency

theorem keys_eq (hl : v.ByRecency l) : v.queue.keys = (l.map (·.1)).reverse := by
  rw [hl.queue_eq, keys_uniform]

theorem nodup (hl : v.ByRecency l) (hv : v.Sound config) : (l.map (·.1)).Nodup := by
  have hnodup := hv.keys_nodup
  rwa [hl.keys_eq, List.nodup_reverse] at hnodup

theorem length_eq (hl : v.ByRecency l) : v.queue.length = l.length := by
  rw [hl.queue_eq, uniform, List.length_map, List.length_reverse, List.length_map]

theorem drop (hl : v.ByRecency l) (key : κ) : (v.drop key).ByRecency (l.without key) where
  queue_eq := by
    rw [View.drop, hl.queue_eq, without_uniform, l.keys_without, List.filter_reverse]
  value_eq k := by
    rw [value_drop, RecencyList.without, Pairs.lookup_filter, hl.value_eq]

/-- An access to a present key moves its pair to the front. -/
theorem touch (hl : v.ByRecency l) (hpresent : (l.lookup key).isSome) (value : ν) :
    ((v.touch .lru key).set key (some value)).ByRecency ((key, value) :: l.without key) where
  queue_eq := by
    rcases Option.isSome_iff_exists.mp hpresent with ⟨old, hold⟩
    have hmem : key ∈ (l.map (·.1)).reverse :=
      List.mem_reverse.mpr (List.mem_map_of_mem (f := (·.1)) (Pairs.mem_of_lookup_eq_some hold))
    have hwithout : v.queue.without key = uniform ((l.without key).map (·.1)).reverse :=
      (hl.drop key).queue_eq
    have hlookup : v.queue.lookup key = some Frequency.initial := by
      rw [hl.queue_eq]
      exact lookup_uniform hmem
    -- the front of the list is the end of the queue
    show v.queue.access .lru key = uniform (key :: (l.without key).map (·.1)).reverse
    rw [access_of_lookup rfl hlookup, hwithout, Policy.nextCount, place_uniform, List.reverse_cons]
  value_eq k := by
    rw [value_set, List.lookup_cons, RecencyList.without, Pairs.lookup_filter]
    by_cases hk : k = key
    · simp [hk]
    · have hbeq : (k == key) = false := by simpa using hk
      rw [if_neg hk, if_neg hk, hbeq]
      exact hl.value_eq k

theorem insert (hl : v.ByRecency l) (key : κ) (value : ν) :
    (v.insert key value).ByRecency ((key, value) :: l) where
  queue_eq := by
    show v.queue.insert key = uniform (key :: l.map (·.1)).reverse
    rw [hl.queue_eq, EvictionQueue.insert, place_uniform, List.reverse_cons]
  value_eq k := by
    rw [value_insert, List.lookup_cons, hl.value_eq]
    by_cases hk : k = key
    · simp [hk]
    · have hbeq : (k == key) = false := by simpa using hk
      rw [if_neg hk, hbeq]

/-- The last pair of the list leaves. -/
theorem evict (hl : v.ByRecency l) (hv : v.Sound config) :
    (v.evict).1 = l.getLast? ∧ (v.evict).2.ByRecency l.dropLast := by
  rcases List.eq_nil_or_concat' l with rfl | ⟨l, p, rfl⟩
  · have hqueue : v.queue = [] := hl.queue_eq
    rw [View.evict_of_nil hqueue]
    exact ⟨rfl, hl⟩
  · have hqueue : v.queue = (p.1, Frequency.initial) :: uniform (l.map (·.1)).reverse := by
      rw [hl.queue_eq, List.map_append, List.reverse_append]
      rfl
    have hnodup := hl.nodup hv
    -- dropping the last pair is taking its key out, which stands nowhere else
    have hvalue : v.value p.1 = some p.2 := by
      rw [hl.value_eq, Pairs.lookup_eq_some_iff_mem hnodup]
      simp
    have hfresh : p.1 ∉ (l ++ [] : RecencyList κ ν).map (·.1) := by
      rw [List.map_append, List.map_singleton, List.nodup_append] at hnodup
      rw [List.append_nil]
      intro hmem
      exact hnodup.2.2 _ hmem _ List.mem_cons_self rfl
    have hwithout : RecencyList.without (l ++ [p]) p.1 = l :=
      (Pairs.filter_middle hfresh).trans (List.append_nil l)
    have hdrop := hl.drop p.1
    rw [hwithout] at hdrop
    rw [hv.evict_eq_drop hqueue, hvalue, List.getLast?_concat, List.dropLast_concat]
    exact ⟨rfl, hdrop⟩

theorem put (hl : v.ByRecency l) (hv : v.Sound config) (hlru : config.policy = .lru) (key : κ)
    (value : ν) :
    (v.put config key value).1 = (l.put config.capacity key value).1 ∧
      (v.put config key value).2.ByRecency (l.put config.capacity key value).2 := by
  unfold View.put RecencyList.put
  rw [hl.value_eq, hlru]
  cases hlookup : l.lookup key with
  | some old => exact ⟨rfl, hl.touch (by rw [hlookup]; rfl) value⟩
  | none =>
    rw [hv.makeRoom_eq, hl.length_eq]
    by_cases hfull : l.length = config.capacity
    · -- the list is full: its last pair makes room
      rcases hl.evict hv with ⟨hentry, hrest⟩
      rw [if_pos hfull, if_pos hfull]
      exact ⟨hentry, hrest.insert key value⟩
    · rw [if_neg hfull, if_neg hfull]
      exact ⟨rfl, hl.insert key value⟩

theorem modify (hl : v.ByRecency l) (hv : v.Sound config) (key : κ) (f : ν → ν) :
    v.value key = (l.modify key f).1 ∧
      ((v.touch .lru key).set key ((v.value key).map f)).ByRecency (l.modify key f).2 := by
  unfold RecencyList.modify
  cases hlookup : l.lookup key with
  | none =>
    have hnone : v.value key = none := (hl.value_eq key).trans hlookup
    rw [hv.touch_of_none hnone, hnone, Option.map_none, View.set_of_eq hnone]
    exact ⟨rfl, hl⟩
  | some value =>
    rw [hl.value_eq, hlookup]
    exact ⟨rfl, hl.touch (by rw [hlookup]; rfl) (f value)⟩

/-- A call on the view is the same call on the list. -/
theorem perform (hl : v.ByRecency l) (hv : v.Sound config) (hlru : config.policy = .lru)
    (call : Call κ ν) :
    (v.perform config call).1 = (l.perform config.capacity call).1 ∧
      (v.perform config call).2.ByRecency (l.perform config.capacity call).2 := by
  cases call with
  | put key value =>
    rcases hl.put hv hlru key value with ⟨hanswer, hrest⟩
    exact ⟨congrArg Answer.entry hanswer, hrest⟩
  | get key =>
    rcases hl.modify hv key id with ⟨hanswer, hrest⟩
    rw [Option.map_id_fun, id_eq, touch_set_value, ← hlru] at hrest
    exact ⟨congrArg Answer.value hanswer, hrest⟩
  | modify key f =>
    rcases hl.modify hv key f with ⟨hanswer, hrest⟩
    rw [← hlru] at hrest
    exact ⟨congrArg Answer.value hanswer, hrest⟩
  | remove key => exact ⟨congrArg Answer.value (hl.value_eq key), hl.drop key⟩
  | erase key =>
    refine ⟨?_, hl.drop key⟩
    show Answer.flag (v.value key).isSome = Answer.flag (l.lookup key).isSome
    rw [hl.value_eq]
  | pop =>
    rcases hl.evict hv with ⟨hanswer, hrest⟩
    exact ⟨congrArg Answer.entry hanswer, hrest⟩
  | clear => exact ⟨rfl, ⟨rfl, fun _ => rfl⟩⟩
  | contains key =>
    refine ⟨?_, hl⟩
    show Answer.flag (v.value key).isSome = Answer.flag (l.lookup key).isSome
    rw [hl.value_eq]
  | peek key => exact ⟨congrArg Answer.value (hl.value_eq key), hl⟩
  | victim =>
    refine ⟨?_, hl⟩
    show Answer.key v.queue.keys.head? = Answer.key (l.getLast?.map (·.1))
    rw [hl.keys_eq, List.head?_reverse, List.getLast?_map]
  | frequency key =>
    refine ⟨?_, hl⟩
    -- only `lfu` counts accesses
    show Answer.count (if config.policy = .lfu then v.queue.lookup key else none) =
      Answer.count none
    rw [hlru, if_neg (by decide)]

/-- Calls on the view are the same calls on the list. -/
theorem run (hl : v.ByRecency l) (hv : v.Sound config) (hlru : config.policy = .lru)
    (calls : List (Call κ ν)) : (v.run config calls).1 = (l.run config.capacity calls).1 := by
  induction calls generalizing v l with
  | nil => rfl
  | cons call calls ih =>
    rcases hl.perform hv hlru call with ⟨hanswer, hrest⟩
    exact congrArg₂ List.cons hanswer (ih hrest (hv.perform call))

end ByRecency

end View

namespace Cache

variable {κ ν : Type} [DecidableEq κ] [Hashable κ] {c : Cache κ ν} {config : Config}
  {l : RecencyList κ ν}

/-- The cache is under `lru`, and its entries are the pairs of the list. -/
def Holds (c : Cache κ ν) (config : Config) (l : RecencyList κ ν) : Prop :=
  config.policy = .lru ∧ ∃ v, c.Shows config v ∧ v.Sound config ∧ v.ByRecency l

namespace Holds

theorem new (config : Config) (hlru : config.policy = .lru) :
    (Cache.new config : Cache κ ν).Holds config [] :=
  ⟨hlru, View.empty, Shows.new config, View.Sound.empty, rfl, fun _ => rfl⟩

/-- The tracker lists the keys in the order of the list. -/
theorem keys_eq (hl : c.Holds config l) : c.tracker.keys = l.map (·.1) := by
  rcases hl with ⟨hlru, v, hshows, -, hview⟩
  rw [Tracker.keys_of_lru (hshows.policy_eq.trans hlru), hshows.queue_eq, hview.keys_eq,
    List.reverse_reverse]

theorem fits (hl : c.Holds config l) : l.Fits config.capacity := by
  rcases hl with ⟨-, v, -, hsound, hview⟩
  refine ⟨hview.nodup hsound, ?_⟩
  rw [← hview.length_eq]
  exact hsound.length_le

theorem size_eq (hl : c.Holds config l) : c.size = l.length := by
  rcases hl with ⟨-, v, hshows, hsound, hview⟩
  rw [hshows.size_eq hsound, hview.length_eq]

theorem peek?_eq (hl : c.Holds config l) (key : κ) : c.peek? key = l.lookup key := by
  rcases hl with ⟨-, v, hshows, -, hview⟩
  rw [hshows.value_eq, hview.value_eq]

/-- A call on the cache is the same call on the list. -/
theorem perform (hl : c.Holds config l) (call : Call κ ν) :
    (c.perform call).1 = (l.perform config.capacity call).1 ∧
      (c.perform call).2.Holds config (l.perform config.capacity call).2 := by
  rcases hl with ⟨hlru, v, hshows, hsound, hview⟩
  rcases hshows.perform hsound call with ⟨hanswer, hshows⟩
  rcases hview.perform hsound hlru call with ⟨hsame, hview⟩
  exact ⟨hanswer.trans hsame, hlru, _, hshows, hsound.perform call, hview⟩

theorem get (hl : c.Holds config l) (key : κ) :
    (c.get key).1 = l.lookup key ∧ (c.get key).2.Holds config (l.modify key id).2 := by
  rcases hl.perform (.get key) with ⟨hanswer, hrest⟩
  exact ⟨(Answer.value.inj hanswer).trans (l.modify_fst key id), hrest⟩

theorem put (hl : c.Holds config l) (key : κ) (value : ν) :
    (c.put key value).1 = (l.put config.capacity key value).1 ∧
      (c.put key value).2.Holds config (l.put config.capacity key value).2 := by
  rcases hl.perform (.put key value) with ⟨hanswer, hrest⟩
  exact ⟨Answer.entry.inj hanswer, hrest⟩

theorem pop (hl : c.Holds config l) :
    (c.pop).1 = l.getLast? ∧ (c.pop).2.Holds config l.dropLast := by
  rcases hl.perform .pop with ⟨hanswer, hrest⟩
  exact ⟨Answer.entry.inj hanswer, hrest⟩

theorem popUpTo_eq (hl : c.Holds config l) (n : Nat) :
    (drain.popUpTo n c).1 = l.reverse.take n := by
  induction n generalizing c l with
  | zero => rfl
  | succ n ih =>
    rcases hl.pop with ⟨hentry, hrest⟩
    rcases hpop : c.pop with ⟨entry, rest⟩
    rw [hpop] at hentry hrest
    dsimp only at hentry hrest
    rw [drain.popUpTo, hpop, hentry]
    rcases List.eq_nil_or_concat' l with rfl | ⟨l, p, rfl⟩
    · rfl
    · rw [List.dropLast_concat] at hrest
      rw [List.getLast?_concat, List.reverse_append]
      exact congrArg (p :: ·) (ih hrest)

/-- The entries leave from the back of the list. -/
theorem drain_eq (hl : c.Holds config l) : (c.drain).1 = l.reverse := by
  rw [drain, hl.popUpTo_eq, hl.size_eq, ← List.length_reverse, List.take_length]

end Holds

/-- A cache under `lru` answers every history of calls as the plain list does. -/
theorem lru_run_eq (config : Config) (calls : List (Call κ ν)) :
    ((new { config with policy := .lru } : Cache κ ν).run calls).1 =
      (RecencyList.run config.capacity [] calls).1 := by
  have hempty : (View.empty : View κ ν).ByRecency [] := ⟨rfl, fun _ => rfl⟩
  rcases (Shows.new { config with policy := .lru }).run View.Sound.empty calls with ⟨hview, -, -⟩
  rw [hview]
  exact hempty.run View.Sound.empty rfl calls

end Cache

end CacheLab
