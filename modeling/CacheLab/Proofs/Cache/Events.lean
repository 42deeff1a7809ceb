import CacheLab.Proofs.Cache.Conservation
import CacheLab.Proofs.Cache.Counting

/-!
# CacheLab.Proofs.Cache.Events — the counters are read off the history

A call counts at most two events, and which ones depends on the state that it meets
(`Cache.events`). The counters after a call are those before it with these events
(`core_perform`), so after a list of calls they are read off its `history` (`core_run`):
each of them, that of the entries apart, is a number of events (`recordAll_counts`).

* `Turnover` lists what a call can count, together with the number of entries before and
  after it and the number that it drops. `Cache.turnover` is the step lemma: every call is
  one of these cases.
* `Cache.size_run` adds the entries up over a run, and `counts_run` tells the events of
  lookups and of insertions by the calls. `counters_run` puts them together for a run on a
  new cache.
-/

namespace CacheLab

variable {κ ν : Type}

/-- Whether the event takes one entry out. -/
def Event.takes : Event → Bool
  | .eviction | .removal => true
  | _ => false

/-- Whether a call looks a key up. -/
@[simp] def Call.isLookup : Call κ ν → Bool
  | .get _ | .modify _ _ => true
  | _ => false

/-- Whether a call puts a value under a key. -/
@[simp] def Call.isPut : Call κ ν → Bool
  | .put _ _ => true
  | _ => false

/-! ## Counters after events -/

namespace Counters

/-- Counts events one after another. -/
def recordAll (n : Counters) (events : List Event) : Counters := events.foldl record n

theorem recordAll_append (n : Counters) (events later : List Event) :
    n.recordAll (events ++ later) = (n.recordAll events).recordAll later :=
  List.foldl_append

/-- Each counter but that of the entries grows by the number of its events. -/
theorem recordAll_counts (n : Counters) (events : List Event) :
    (n.recordAll events).requests = n.requests + (events.count .hit + events.count .miss) ∧
      (n.recordAll events).hits = n.hits + events.count .hit ∧
      (n.recordAll events).insertions = n.insertions + events.count .insertion ∧
      (n.recordAll events).updates = n.updates + events.count .update ∧
      (n.recordAll events).evictions = n.evictions + events.count .eviction ∧
      (n.recordAll events).removals = n.removals + events.count .removal ∧
      (n.recordAll events).clears = n.clears + events.count .clear ∧
      (n.recordAll events).capacity = n.capacity := by
  induction events generalizing n with
  | nil => simp [recordAll]
  | cons e events ih =>
    rcases ih (n.record e) with ⟨hrequests, hhits, hinsertions, hupdates, hevictions, hremovals,
      hclears, hcapacity⟩
    have hstep : n.recordAll (e :: events) = (n.record e).recordAll events := List.foldl_cons ..
    rw [hstep, hrequests, hhits, hinsertions, hupdates, hevictions, hremovals, hclears, hcapacity]
    cases e <;> simp only [record, List.count_cons, beq_self_eq_true, if_true] <;> simp <;> omega

end Counters

/-! ## Sizes -/

namespace Store

variable [DecidableEq κ] [Hashable κ]

theorem card_pairs (s : Store κ ν) : s.pairs.card = s.size := by
  rw [pairs, Multiset.coe_card]
  exact Std.HashMap.length_toList

end Store

namespace Cache

variable [DecidableEq κ] [Hashable κ]

theorem card_held (c : Cache κ ν) : c.held.card = c.size := c.store.card_pairs

theorem card_toList {α : Type} (o : Option α) :
    (o.toList : Multiset α).card = o.isSome.toNat := by
  cases o <;> rfl

theorem size_touch (c : Cache κ ν) (key : κ) : (c.touch key).size = c.size := by
  rw [← card_held, held_touch, card_held]

theorem size_get (c : Cache κ ν) (key : κ) : (c.get key).2.size = c.size := by
  rw [← card_held, held_get, card_held]

theorem size_modify (c : Cache κ ν) (key : κ) (f : ν → ν) : (c.modify key f).2.size = c.size := by
  unfold modify
  cases c.peek? key with
  | none => rfl
  | some value => exact Std.HashMap.size_modify.trans (c.size_touch key)

theorem size_evict (c : Cache κ ν) : c.size = (c.evict).1.isSome.toNat + (c.evict).2.size := by
  have hcard := congrArg Multiset.card c.held_evict
  rwa [Multiset.card_add, card_toList, card_held, card_held] at hcard

theorem size_put (c : Cache κ ν) (key : κ) (value : ν) :
    c.size + 1 = (c.put key value).1.isSome.toNat + (c.put key value).2.size := by
  have hcard := congrArg Multiset.card (c.held_put key value)
  rwa [Multiset.card_add, Multiset.card_add, Multiset.card_singleton, card_toList, card_held,
    card_held] at hcard

theorem size_remove (c : Cache κ ν) (key : κ) :
    c.size = (c.remove key).1.isSome.toNat + (c.remove key).2.size := by
  have hcard := congrArg Multiset.card (c.held_remove key)
  rw [entryOf, Multiset.card_add, card_toList, Option.isSome_map, card_held, card_held] at hcard
  exact hcard

theorem size_clear (c : Cache κ ν) : (c.clear).size = 0 := Std.HashMap.size_empty

/-! ## The events of a call -/

/-- The events that a call counts. -/
def events (c : Cache κ ν) : Call κ ν → List Event
  | .get key | .modify key _ => [if (c.peek? key).isSome then .hit else .miss]
  | .put key value =>
    if (c.peek? key).isSome then [.update]
    else if (c.put key value).1.isSome then [.eviction, .insertion]
    else [.insertion]
  | .remove key | .erase key => if (c.peek? key).isSome then [.removal] else []
  | .pop => if (c.evict).1.isSome then [.eviction] else []
  | .clear => [.clear]
  | .contains _ | .peek _ | .victim | .frequency _ => []

/-- The number of entries that a call drops without an answer or an event for each. -/
def cleared (c : Cache κ ν) : Call κ ν → Nat
  | .clear => c.size
  | _ => 0

theorem get_fst (c : Cache κ ν) (key : κ) : (c.get key).1 = c.peek? key := by
  unfold get
  cases c.peek? key <;> rfl

theorem modify_fst (c : Cache κ ν) (key : κ) (f : ν → ν) : (c.modify key f).1 = c.peek? key := by
  unfold modify
  cases c.peek? key <;> rfl

theorem remove_fst (c : Cache κ ν) (key : κ) : (c.remove key).1 = c.peek? key := by
  unfold remove
  cases c.peek? key <;> rfl

/-- A present key answers its old value. -/
theorem put_fst_of_some {c : Cache κ ν} {key : κ} {old : ν} (hold : c.peek? key = some old)
    (value : ν) : (c.put key value).1 = some (key, old) := by
  rw [put, hold]

/-- An absent key answers what was evicted for it. -/
theorem put_fst_of_none {c : Cache κ ν} {key : κ} (hnone : c.peek? key = none) (value : ν) :
    (c.put key value).1 = if c.capacity ≤ c.size then (c.evict).1 else none := by
  rw [put, hnone]
  by_cases hfull : c.capacity ≤ c.size
  · rw [if_pos hfull, if_pos hfull]
  · rw [if_neg hfull, if_neg hfull]

theorem core_put (c : Cache κ ν) (key : κ) (value : ν) :
    (c.put key value).2.metrics.core = c.metrics.core.recordAll (c.events (.put key value)) := by
  rw [events]
  cases hpeek : c.peek? key with
  | some old =>
    rw [core_put_of_some c hpeek]
    rfl
  | none =>
    rw [core_put_of_none c hpeek, put_fst_of_none hpeek]
    by_cases hfull : c.capacity ≤ c.size
    · rw [if_pos hfull, if_pos hfull, core_evict]
      cases (c.evict).1.isSome <;> rfl
    · rw [if_neg hfull, if_neg hfull]
      rfl

/-- The counters after a call are those before it with the events of the call. -/
theorem core_perform (c : Cache κ ν) (call : Call κ ν) :
    (c.perform call).2.metrics.core = c.metrics.core.recordAll (c.events call) := by
  have hremove : ∀ key, (c.remove key).2.metrics.core =
      c.metrics.core.recordAll (if (c.peek? key).isSome then [.removal] else []) := by
    intro key
    rw [core_remove, remove_fst]
    split <;> rfl
  cases call with
  | put key value => exact c.core_put key value
  | get key =>
    have hcore := c.core_get key
    rwa [get_fst] at hcore
  | modify key f =>
    have hcore := c.core_modify key f
    rwa [modify_fst] at hcore
  | remove key => exact hremove key
  | erase key => exact hremove key
  | pop =>
    show (c.evict).2.metrics.core = c.metrics.core.recordAll (if (c.evict).1.isSome then _ else _)
    rw [core_evict]
    split <;> rfl
  | clear => exact c.core_clear
  | contains key => rfl
  | peek key => rfl
  | victim => rfl
  | frequency key => rfl

/-! ## Turnover -/

/-- What a call counts, with the number of entries before and after it and the number
that it drops. -/
inductive Turnover : List Event → Nat → Nat → Nat → Prop where
  | nothing (size : Nat) : Turnover [] size size 0
  | hit (size : Nat) : Turnover [.hit] size size 0
  | miss (size : Nat) : Turnover [.miss] size size 0
  | update (size : Nat) : Turnover [.update] size size 0
  | insertion (size : Nat) : Turnover [.insertion] size (size + 1) 0
  /-- An entry makes room for another one. -/
  | exchange (size : Nat) : Turnover [.eviction, .insertion] (size + 1) (size + 1) 0
  | eviction (size : Nat) : Turnover [.eviction] (size + 1) size 0
  | removal (size : Nat) : Turnover [.removal] (size + 1) size 0
  | clear (size : Nat) : Turnover [.clear] size 0 size

theorem turnover_lookup (size : Nat) (found : Bool) :
    Turnover [if found then .hit else .miss] size size 0 := by
  cases found with
  | true => exact .hit size
  | false => exact .miss size

theorem turnover_put (c : Cache κ ν) (key : κ) (value : ν) :
    Turnover (c.events (.put key value)) c.size (c.put key value).2.size 0 := by
  have hsize := c.size_put key value
  rw [events]
  cases hpeek : c.peek? key with
  | some old =>
    rw [put_fst_of_some hpeek] at hsize
    have hsame : (c.put key value).2.size = c.size := by
      simp only [Option.isSome_some, Bool.toNat_true] at hsize
      omega
    rw [hsame]
    exact .update c.size
  | none =>
    cases hout : (c.put key value).1.isSome with
    | false =>
      have hmore : (c.put key value).2.size = c.size + 1 := by
        rw [hout, Bool.toNat_false] at hsize
        omega
      rw [hmore]
      exact .insertion c.size
    | true =>
      -- what makes room was there before
      have hevicted : (c.evict).1.isSome = true := by
        rw [put_fst_of_none hpeek] at hout
        split at hout
        · exact hout
        · cases hout
      have hevict := c.size_evict
      rw [hevicted, Bool.toNat_true, Nat.add_comm] at hevict
      have hsame : (c.put key value).2.size = c.size := by
        rw [hout, Bool.toNat_true] at hsize
        omega
      rw [hsame, hevict]
      exact .exchange (c.evict).2.size

theorem turnover_remove (c : Cache κ ν) (key : κ) :
    Turnover (if (c.peek? key).isSome then [.removal] else []) c.size (c.remove key).2.size 0 := by
  have hsize := c.size_remove key
  rw [remove_fst] at hsize
  cases hpeek : (c.peek? key).isSome with
  | true =>
    rw [hpeek, Bool.toNat_true, Nat.add_comm] at hsize
    rw [hsize]
    exact .removal (c.remove key).2.size
  | false =>
    rw [hpeek, Bool.toNat_false, Nat.zero_add] at hsize
    rw [← hsize]
    exact .nothing c.size

theorem turnover_pop (c : Cache κ ν) :
    Turnover (c.events .pop) c.size (c.pop).2.size 0 := by
  have hsize : c.size = (c.evict).1.isSome.toNat + (c.pop).2.size := c.size_evict
  rw [events]
  cases hout : (c.evict).1.isSome with
  | true =>
    rw [hout, Bool.toNat_true, Nat.add_comm] at hsize
    rw [hsize]
    exact .eviction (c.pop).2.size
  | false =>
    rw [hout, Bool.toNat_false, Nat.zero_add] at hsize
    rw [← hsize]
    exact .nothing c.size

/-- Every call is one of the cases. -/
theorem turnover (c : Cache κ ν) (call : Call κ ν) :
    Turnover (c.events call) c.size (c.perform call).2.size (c.cleared call) := by
  cases call with
  | put key value => exact c.turnover_put key value
  | get key =>
    show Turnover _ c.size (c.get key).2.size 0
    rw [size_get]
    exact turnover_lookup c.size _
  | modify key f =>
    show Turnover _ c.size (c.modify key f).2.size 0
    rw [size_modify]
    exact turnover_lookup c.size _
  | remove key => exact c.turnover_remove key
  | erase key => exact c.turnover_remove key
  | pop => exact c.turnover_pop
  | clear =>
    show Turnover _ c.size (c.clear).size c.size
    rw [size_clear]
    exact .clear c.size
  | contains key => exact .nothing c.size
  | peek key => exact .nothing c.size
  | victim => exact .nothing c.size
  | frequency key => exact .nothing c.size

/-- What was there or came in was taken out, was dropped or is there still. -/
theorem Turnover.balance {events : List Event} {before after dropped : Nat}
    (ht : Turnover events before after dropped) :
    before + events.count .insertion =
      events.count .eviction + events.count .removal + dropped + after := by
  cases ht <;> simp <;> omega

/-- The counter of the entries follows their number, and does not stop at zero before it. -/
theorem Turnover.entries_eq {events : List Event} {before after dropped : Nat} {n : Counters}
    (ht : Turnover events before after dropped) (hentries : n.entries = before) :
    (n.recordAll events).entries = after := by
  cases ht <;> simp only [Counters.recordAll, List.foldl_cons, List.foldl_nil, Counters.record] <;>
    omega

/-! ## Histories -/

/-- The events that a list of calls counts, in order. -/
def history (c : Cache κ ν) : List (Call κ ν) → List Event
  | [] => []
  | call :: calls => c.events call ++ (c.perform call).2.history calls

/-- The number of entries that are dropped by the calls of a list that clear the cache. -/
def dropped (c : Cache κ ν) : List (Call κ ν) → Nat
  | [] => 0
  | call :: calls => c.cleared call + (c.perform call).2.dropped calls

theorem dropped_append (c : Cache κ ν) (calls later : List (Call κ ν)) :
    c.dropped (calls ++ later) = c.dropped calls + (c.run calls).2.dropped later := by
  induction calls generalizing c with
  | nil => exact (Nat.zero_add _).symm
  | cons call calls ih =>
    show c.cleared call + (c.perform call).2.dropped (calls ++ later) =
      c.cleared call + (c.perform call).2.dropped calls + _
    rw [ih, Nat.add_assoc]
    rfl

/-- The counters are read off the history. -/
theorem core_run (c : Cache κ ν) (calls : List (Call κ ν)) :
    (c.run calls).2.metrics.core = c.metrics.core.recordAll (c.history calls) := by
  induction calls generalizing c with
  | nil => rfl
  | cons call calls ih =>
    show ((c.perform call).2.run calls).2.metrics.core = _
    rw [ih, core_perform, history, Counters.recordAll_append]

/-- The entries add up over a run. -/
theorem size_run (c : Cache κ ν) (calls : List (Call κ ν)) :
    c.size + (c.history calls).count .insertion =
      (c.history calls).count .eviction + (c.history calls).count .removal + c.dropped calls +
        (c.run calls).2.size := by
  induction calls generalizing c with
  | nil => simp [history, dropped, run]
  | cons call calls ih =>
    have hcall := (c.turnover call).balance
    have hrest := ih (c.perform call).2
    show c.size + (c.events call ++ (c.perform call).2.history calls).count .insertion =
      (c.events call ++ (c.perform call).2.history calls).count .eviction +
        (c.events call ++ (c.perform call).2.history calls).count .removal +
        (c.cleared call + (c.perform call).2.dropped calls) +
        ((c.perform call).2.run calls).2.size
    rw [List.count_append, List.count_append, List.count_append]
    omega

/-- The events of lookups, hits and insertions are told by the calls and their answers. -/
theorem counts_perform (c : Cache κ ν) (call : Call κ ν) :
    (c.events call).count .hit + (c.events call).count .miss = call.isLookup.toNat ∧
      (c.events call).count .hit = (call.isHit (c.perform call).1).toNat ∧
      (c.events call).count .insertion + (c.events call).count .update = call.isPut.toNat := by
  cases call with
  | get key =>
    simp only [events, perform, get_fst, Call.isHit]
    cases (c.peek? key).isSome <;> simp
  | modify key f =>
    simp only [events, perform, modify_fst, Call.isHit]
    cases (c.peek? key).isSome <;> simp
  | put key value =>
    simp only [events, Call.isHit]
    split
    · simp
    · split <;> simp
  | remove key =>
    simp only [events, Call.isHit]
    split <;> simp
  | erase key =>
    simp only [events, Call.isHit]
    split <;> simp
  | pop =>
    simp only [events, Call.isHit]
    split <;> simp
  | clear => simp [events, Call.isHit]
  | contains key => simp [events, Call.isHit]
  | peek key => simp [events, Call.isHit]
  | victim => simp [events, Call.isHit]
  | frequency key => simp [events, Call.isHit]

/-- So are those of a run. -/
theorem counts_run (c : Cache κ ν) (calls : List (Call κ ν)) :
    (c.history calls).count .hit + (c.history calls).count .miss = calls.countP Call.isLookup ∧
      (c.history calls).count .hit = (List.zipWith Call.isHit calls (c.run calls).1).count true ∧
      (c.history calls).count .insertion + (c.history calls).count .update =
        calls.countP Call.isPut := by
  induction calls generalizing c with
  | nil => simp [history, run]
  | cons call calls ih =>
    rcases c.counts_perform call with ⟨hlookups, hhits, hputs⟩
    rcases ih (c.perform call).2 with ⟨hlookups', hhits', hputs'⟩
    have hzip : List.zipWith Call.isHit (call :: calls) (c.run (call :: calls)).1 =
        call.isHit (c.perform call).1 ::
          List.zipWith Call.isHit calls ((c.perform call).2.run calls).1 := rfl
    have htrue : ∀ b : Bool, (if b = true then 1 else 0) = b.toNat := by decide
    rw [hzip, history, List.count_append, List.count_append, List.count_append, List.count_append,
      List.countP_cons, List.countP_cons, List.count_cons, hhits', htrue, htrue]
    simp only [beq_true, htrue]
    omega

theorem size_new (config : Config) : (new config : Cache κ ν).size = 0 := Std.HashMap.size_empty

/-- The counter of the entries is right after a run if it was before. -/
theorem entries_run {c : Cache κ ν} (hentries : c.metrics.core.entries = c.size)
    (calls : List (Call κ ν)) :
    (c.run calls).2.metrics.core.entries = (c.run calls).2.size := by
  induction calls generalizing c with
  | nil => exact hentries
  | cons call calls ih =>
    have hafter := (c.turnover call).entries_eq hentries
    rw [← core_perform] at hafter
    exact ih hafter

/-- The laws of the counters after calls on a new cache. -/
theorem counters_run (config : Config) (calls : List (Call κ ν)) :
    let c : Cache κ ν := new config
    let n := (c.run calls).2.metrics.core
    n.requests = calls.countP Call.isLookup ∧
      n.hits = (List.zipWith Call.isHit calls (c.run calls).1).count true ∧
      n.hits ≤ n.requests ∧
      n.insertions + n.updates = calls.countP Call.isPut ∧
      n.insertions = n.evictions + n.removals + c.dropped calls + n.entries ∧
      n.entries = (c.run calls).2.size ∧ n.capacity = config.capacity := by
  intro c n
  have hcore : n = c.metrics.core.recordAll (c.history calls) := c.core_run calls
  have hnew : c.metrics.core = { capacity := config.capacity } := rfl
  have hempty : c.size = 0 := size_new config
  rcases Counters.recordAll_counts c.metrics.core (c.history calls) with ⟨hrequests, hhits,
    hinsertions, hupdates, hevictions, hremovals, -, hcapacity⟩
  rw [← hcore, hnew] at hrequests hhits hinsertions hupdates hevictions hremovals hcapacity
  dsimp only at hrequests hhits hinsertions hupdates hevictions hremovals
  rcases c.counts_run calls with ⟨hlookups, hfound, hputs⟩
  have hflow := c.size_run calls
  have hentries : n.entries = (c.run calls).2.size := entries_run hempty.symm calls
  exact ⟨by omega, by omega, by omega, by omega, by omega, hentries, hcapacity⟩

end Cache

end CacheLab
