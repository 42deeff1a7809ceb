import CacheLab.Proofs.Cache.LockStep

/-!
# CacheLab.Proofs.Cache.ArrivalQueue — a cache under `fifo` is one queue

The plain model of a cache that evicts the entry that was inserted first: one
queue of pairs, oldest first, of at most `capacity` pairs.

* A `put` of an absent key takes the first pair if the queue is full, and
  appends the new pair at the end. Nothing else appends.
* A `put` of a present key and `modify` change the value of its pair where it
  stands; lookups change nothing.

`Cache.Queues` says that a cache under `fifo` is such a queue, and
`Queues.perform`, `Queues.run` that calls on the cache are calls on the queue,
answer by answer.
-/

namespace CacheLab

/-- Pairs of key and value, oldest first. -/
abbrev ArrivalQueue (κ ν : Type) := List (κ × ν)

namespace ArrivalQueue

variable {κ ν : Type} {q : ArrivalQueue κ ν} {capacity : Nat} {key : κ}

/-- The queued keys. -/
def keys (q : ArrivalQueue κ ν) : List κ := q.map (·.1)

variable [DecidableEq κ]

/-- The queue without the pair of `key`. -/
def without (q : ArrivalQueue κ ν) (key : κ) : ArrivalQueue κ ν := q.filter (·.1 ≠ key)

/-- Changes the value of `key` where its pair stands. -/
def change (q : ArrivalQueue κ ν) (key : κ) (f : ν → ν) : ArrivalQueue κ ν :=
  q.map fun p => if p.1 = key then (p.1, f p.2) else p

/-- Puts `value` under `key`, at the end if `key` is absent, and answers the
pair that it displaces. -/
def put (capacity : Nat) (q : ArrivalQueue κ ν) (key : κ) (value : ν) :
    Option (κ × ν) × ArrivalQueue κ ν :=
  match q.lookup key with
  | some old => (some (key, old), q.change key fun _ => value)
  | none =>
    if q.length = capacity then
      (q.head?, q.tail ++ [(key, value)])
    else
      (none, q ++ [(key, value)])

/-- Makes one call. -/
def perform (capacity : Nat) (q : ArrivalQueue κ ν) : Call κ ν → Answer κ ν × ArrivalQueue κ ν
  | .put key value => let (entry, q) := q.put capacity key value; (.entry entry, q)
  | .get key => (.value (q.lookup key), q)
  | .modify key f => (.value (q.lookup key), q.change key f)
  | .remove key => (.value (q.lookup key), q.without key)
  | .erase key => (.flag (q.lookup key).isSome, q.without key)
  | .pop => (.entry q.head?, q.tail)
  | .clear => (.done, [])
  | .contains key => (.flag (q.lookup key).isSome, q)
  | .peek key => (.value (q.lookup key), q)
  | .victim => (.key q.keys.head?, q)
  | .frequency _ => (.count none, q)

/-- Makes the calls one after another. -/
def run (capacity : Nat) (q : ArrivalQueue κ ν) :
    List (Call κ ν) → List (Answer κ ν) × ArrivalQueue κ ν
  | [] => ([], q)
  | call :: calls =>
    let (answer, q) := q.perform capacity call
    let (answers, q) := q.run capacity calls
    (answer :: answers, q)

theorem put_of_some {old value : ν} (hlookup : q.lookup key = some old) :
    q.put capacity key value = (some (key, old), q.change key fun _ => value) := by
  rw [put, hlookup]

theorem put_of_none {value : ν} (hlookup : q.lookup key = none) :
    q.put capacity key value =
      if q.length = capacity then (q.head?, q.tail ++ [(key, value)])
      else (none, q ++ [(key, value)]) := by
  rw [put, hlookup]

theorem keys_change (q : ArrivalQueue κ ν) (key : κ) (f : ν → ν) :
    (q.change key f).keys = q.keys := by
  rw [keys, change, List.map_map, keys]
  congr 1
  funext p
  show (if p.1 = key then (p.1, f p.2) else p).1 = p.1
  split <;> rfl

theorem lookup_change (q : ArrivalQueue κ ν) (key : κ) (f : ν → ν) (k : κ) :
    (q.change key f).lookup k = if k = key then (q.lookup k).map f else q.lookup k := by
  induction q with
  | nil => simp [change]
  | cons p q ih =>
    rw [change] at ih
    rw [change, List.map_cons, List.lookup_cons, List.lookup_cons, ih]
    by_cases hp : p.1 = key
    · rw [if_pos hp]
      by_cases hk : k = key
      · have hbeq : (k == p.1) = true := by simp [hk, hp]
        rw [if_pos hk, if_pos hk, hbeq]
        rfl
      · have hbeq : (k == p.1) = false := by simpa [hp] using hk
        rw [if_neg hk, if_neg hk, hbeq]
    · rw [if_neg hp]
      by_cases hk : k = key
      · have hbeq : (k == p.1) = false := by simpa [hk] using Ne.symm hp
        rw [if_pos hk, if_pos hk, hbeq]
      · rw [if_neg hk, if_neg hk]

theorem keys_without (q : ArrivalQueue κ ν) (key : κ) :
    (q.without key).keys = q.keys.filter (· ≠ key) := by
  rw [keys, without, keys, List.filter_map]
  rfl

end ArrivalQueue

namespace View

open EvictionQueue

variable {κ ν : Type} [DecidableEq κ] {v : View κ ν} {q : ArrivalQueue κ ν} {config : Config}
  {key : κ}

/-- The queue is that of the pairs and the values are theirs. -/
structure ByArrival (v : View κ ν) (q : ArrivalQueue κ ν) : Prop where
  queue_eq : v.queue = uniform q.keys
  value_eq : ∀ key, v.value key = q.lookup key

namespace ByArrival

theorem keys_eq (hq : v.ByArrival q) : v.queue.keys = q.keys := by
  rw [hq.queue_eq, keys_uniform]

theorem length_eq (hq : v.ByArrival q) : v.queue.length = q.length := by
  rw [hq.queue_eq, uniform, List.length_map, ArrivalQueue.keys, List.length_map]

theorem drop (hq : v.ByArrival q) (key : κ) : (v.drop key).ByArrival (q.without key) where
  queue_eq := by
    rw [View.drop, hq.queue_eq, without_uniform, ArrivalQueue.keys_without]
  value_eq k := by
    rw [value_drop, ArrivalQueue.without, Pairs.lookup_filter, hq.value_eq]

/-- The value of a key changes where its pair stands; `fifo` notes no access. -/
theorem change (hq : v.ByArrival q) (key : κ) (f : ν → ν) :
    ((v.touch .fifo key).set key ((q.lookup key).map f)).ByArrival (q.change key f) where
  queue_eq := by
    rw [ArrivalQueue.keys_change]
    exact hq.queue_eq
  value_eq k := by
    rw [value_set, ArrivalQueue.lookup_change]
    by_cases hk : k = key
    · rw [if_pos hk, if_pos hk, hk]
    · rw [if_neg hk, if_neg hk]
      exact hq.value_eq k

theorem insert (hq : v.ByArrival q) (habsent : q.lookup key = none) (value : ν) :
    (v.insert key value).ByArrival (q ++ [(key, value)]) where
  queue_eq := by
    show v.queue.insert key = uniform (ArrivalQueue.keys (q ++ [(key, value)]))
    rw [hq.queue_eq, EvictionQueue.insert, place_uniform, ArrivalQueue.keys, ArrivalQueue.keys,
      List.map_append, List.map_singleton]
  value_eq k := by
    rw [value_insert, List.lookup_append, hq.value_eq]
    by_cases hk : k = key
    · -- no older pair of this key stands in front
      rw [if_pos hk, hk, habsent]
      simp
    · have hbeq : (k == key) = false := by simpa using hk
      rw [if_neg hk, List.lookup_cons, hbeq]
      simp

/-- The first pair of the queue leaves. -/
theorem evict (hq : v.ByArrival q) (hv : v.Sound config) :
    (v.evict).1 = q.head? ∧ (v.evict).2.ByArrival q.tail := by
  cases q with
  | nil =>
    have hqueue : v.queue = [] := hq.queue_eq
    rw [View.evict_of_nil hqueue]
    exact ⟨rfl, hq⟩
  | cons p q =>
    have hqueue : v.queue = (p.1, Frequency.initial) :: uniform (ArrivalQueue.keys q) := hq.queue_eq
    have hvalue : v.value p.1 = some p.2 := by
      rw [hq.value_eq, List.lookup_cons, beq_self_eq_true]
    -- dropping the first pair is taking its key out, which stands nowhere else
    have hfresh : p.1 ∉ ([] ++ q : ArrivalQueue κ ν).map (·.1) := by
      have hnodup := hv.keys_nodup
      rw [hq.keys_eq] at hnodup
      exact (List.nodup_cons.mp hnodup).1
    have hwithout : ArrivalQueue.without (p :: q) p.1 = q := Pairs.filter_middle hfresh
    have hdrop := hq.drop p.1
    rw [hwithout] at hdrop
    rw [hv.evict_eq_drop hqueue, hvalue]
    exact ⟨rfl, hdrop⟩

theorem put (hq : v.ByArrival q) (hv : v.Sound config) (hfifo : config.policy = .fifo) (key : κ)
    (value : ν) :
    (v.put config key value).1 = (q.put config.capacity key value).1 ∧
      (v.put config key value).2.ByArrival (q.put config.capacity key value).2 := by
  unfold View.put
  rw [hq.value_eq, hfifo]
  cases hlookup : q.lookup key with
  | some old =>
    have hchange := hq.change key fun _ => value
    rw [hlookup] at hchange
    rw [ArrivalQueue.put_of_some hlookup]
    exact ⟨rfl, hchange⟩
  | none =>
    rw [ArrivalQueue.put_of_none hlookup, hv.makeRoom_eq, hq.length_eq]
    by_cases hfull : q.length = config.capacity
    · -- the queue is full: its first pair makes room, and the key is still absent
      rcases hq.evict hv with ⟨hentry, hrest⟩
      have habsent : q.tail.lookup key = none := by
        rw [Pairs.lookup_eq_none_iff_notMem] at hlookup ⊢
        intro hmem
        rw [List.map_tail] at hmem
        exact hlookup (List.mem_of_mem_tail hmem)
      rw [if_pos hfull, if_pos hfull]
      exact ⟨hentry, hrest.insert habsent value⟩
    · rw [if_neg hfull, if_neg hfull]
      exact ⟨rfl, hq.insert hlookup value⟩

/-- A call on the view is the same call on the queue. -/
theorem perform (hq : v.ByArrival q) (hv : v.Sound config) (hfifo : config.policy = .fifo)
    (call : Call κ ν) :
    (v.perform config call).1 = (q.perform config.capacity call).1 ∧
      (v.perform config call).2.ByArrival (q.perform config.capacity call).2 := by
  cases call with
  | put key value =>
    rcases hq.put hv hfifo key value with ⟨hanswer, hrest⟩
    exact ⟨congrArg Answer.entry hanswer, hrest⟩
  | get key =>
    refine ⟨congrArg Answer.value (hq.value_eq key), ?_⟩
    -- a lookup is an access, which moves nothing
    show (v.touch config.policy key).ByArrival q
    rw [hfifo]
    exact hq
  | modify key f =>
    refine ⟨congrArg Answer.value (hq.value_eq key), ?_⟩
    show ((v.touch config.policy key).set key ((v.value key).map f)).ByArrival (q.change key f)
    rw [hfifo, hq.value_eq]
    exact hq.change key f
  | remove key => exact ⟨congrArg Answer.value (hq.value_eq key), hq.drop key⟩
  | erase key =>
    refine ⟨?_, hq.drop key⟩
    show Answer.flag (v.value key).isSome = Answer.flag (q.lookup key).isSome
    rw [hq.value_eq]
  | pop =>
    rcases hq.evict hv with ⟨hanswer, hrest⟩
    exact ⟨congrArg Answer.entry hanswer, hrest⟩
  | clear => exact ⟨rfl, ⟨rfl, fun _ => rfl⟩⟩
  | contains key =>
    refine ⟨?_, hq⟩
    show Answer.flag (v.value key).isSome = Answer.flag (q.lookup key).isSome
    rw [hq.value_eq]
  | peek key => exact ⟨congrArg Answer.value (hq.value_eq key), hq⟩
  | victim =>
    refine ⟨?_, hq⟩
    show Answer.key v.queue.keys.head? = Answer.key q.keys.head?
    rw [hq.keys_eq]
  | frequency key =>
    refine ⟨?_, hq⟩
    -- only `lfu` counts accesses
    show Answer.count (if config.policy = .lfu then v.queue.lookup key else none) =
      Answer.count none
    rw [hfifo, if_neg (by decide)]

end ByArrival

end View

namespace Cache

variable {κ ν : Type} [DecidableEq κ] [Hashable κ] {c : Cache κ ν} {config : Config}
  {q : ArrivalQueue κ ν}

/-- The cache is under `fifo`, and its entries are the pairs of the queue. -/
def Queues (c : Cache κ ν) (config : Config) (q : ArrivalQueue κ ν) : Prop :=
  config.policy = .fifo ∧ ∃ v, c.Shows config v ∧ v.Sound config ∧ v.ByArrival q

namespace Queues

theorem new (config : Config) (hfifo : config.policy = .fifo) :
    (Cache.new config : Cache κ ν).Queues config [] :=
  ⟨hfifo, View.empty, Shows.new config, View.Sound.empty, rfl, fun _ => rfl⟩

/-- The tracker lists the queued keys in the order of the queue. -/
theorem keys_eq (hq : c.Queues config q) : c.tracker.keys = q.keys := by
  rcases hq with ⟨hfifo, v, hshows, -, hview⟩
  rw [Tracker.keys_of_fifo (hshows.policy_eq.trans hfifo), hshows.queue_eq, hview.keys_eq]

theorem keys_nodup (hq : c.Queues config q) : q.keys.Nodup := by
  rcases hq with ⟨-, v, -, hsound, hview⟩
  rw [← hview.keys_eq]
  exact hsound.keys_nodup

theorem contains_iff (hq : c.Queues config q) (key : κ) :
    c.contains key = true ↔ key ∈ q.keys := by
  rcases hq with ⟨-, v, hshows, hsound, hview⟩
  rw [hshows.contains_eq, ← hview.keys_eq]
  exact (hsound.mem_keys_iff key).symm

/-- A call on the cache is the same call on the queue. -/
theorem perform (hq : c.Queues config q) (call : Call κ ν) :
    (c.perform call).1 = (q.perform config.capacity call).1 ∧
      (c.perform call).2.Queues config (q.perform config.capacity call).2 := by
  rcases hq with ⟨hfifo, v, hshows, hsound, hview⟩
  rcases hshows.perform hsound call with ⟨hanswer, hshows⟩
  rcases hview.perform hsound hfifo call with ⟨hsame, hview⟩
  exact ⟨hanswer.trans hsame, hfifo, _, hshows, hsound.perform call, hview⟩

/-- Calls on the cache are the same calls on the queue. -/
theorem run (hq : c.Queues config q) (calls : List (Call κ ν)) :
    (c.run calls).1 = (q.run config.capacity calls).1 ∧
      (c.run calls).2.Queues config (q.run config.capacity calls).2 := by
  induction calls generalizing c q with
  | nil => exact ⟨rfl, hq⟩
  | cons call calls ih =>
    rcases hq.perform call with ⟨hanswer, hnext⟩
    rcases ih hnext with ⟨hanswers, hrest⟩
    exact ⟨congrArg₂ List.cons hanswer hanswers, hrest⟩

end Queues

end Cache

end CacheLab
