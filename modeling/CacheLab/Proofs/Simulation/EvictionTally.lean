import CacheLab.Proofs.Cache.Events
import CacheLab.Proofs.Simulation.Workers
import Mathlib.Algebra.Ring.Nat

/-!
# CacheLab.Proofs.Simulation.EvictionTally — what the workers count as evictions

A worker counts an eviction when its insertion displaces an entry. It makes an
insertion after a lookup in vain, so one would expect that the displaced entry is one
that was evicted to make room. But between the two calls another worker may have inserted
the same key: then the insertion is an update, and what it displaces is the old
value of its own key.

* `Cache.displaced` is how often either has happened, and `Subject.Step.displaced` is the
  step lemma: it grows with a visit as the tally of evictions does.
* `evictions_tallied` adds this up: whatever the turns, the workers count the
  evictions and the updates of the cache together. The count of evictions is therefore
  right exactly if no insertion met its own key.
* `evictions_tallied_race`: two workers that look the same key up before either of them
  inserts it count an eviction where there was none.
* `replaySequential_evictions`: a replay in sequence, which inserts a request right after its
  lookup, counts exactly the evictions.
-/

namespace CacheLab

open Std.Do

set_option mvcgen.warning false

/-! ## Displaced entries -/

namespace Cache

variable {κ ν : Type} [DecidableEq κ] [Hashable κ] {c : Cache κ ν} {key : κ}

/-- The number of entries that were evicted or replaced. -/
def displaced (c : Cache κ ν) : Nat := c.metrics.core.evictions + c.metrics.core.updates

theorem displaced_get (c : Cache κ ν) (key : κ) : (c.get key).2.displaced = c.displaced := by
  rw [displaced, core_get]
  split <;> rfl

theorem displaced_evict (c : Cache κ ν) :
    (c.evict).2.displaced = c.displaced + (c.evict).1.isSome.toNat := by
  rw [displaced, core_evict]
  cases (c.evict).1.isSome with
  | true => exact Nat.add_right_comm _ _ _
  | false => rfl

/-- An insertion displaces the entry that it answers. -/
theorem displaced_put (c : Cache κ ν) (key : κ) (value : ν) :
    (c.put key value).2.displaced = c.displaced + (c.put key value).1.isSome.toNat := by
  cases hpeek : c.peek? key with
  | some old =>
    rw [displaced, core_put_of_some c hpeek, put_fst_of_some hpeek]
    rfl
  | none =>
    rw [displaced, core_put_of_none c hpeek, put_fst_of_none hpeek]
    by_cases hfull : c.capacity ≤ c.size
    · rw [if_pos hfull, if_pos hfull]
      exact c.displaced_evict
    · rw [if_neg hfull, if_neg hfull]
      rfl

end Cache

/-! ## Displacements by visits -/

namespace Subject

variable {c : Cache String Nat} {s' : Subject}

theorem Step.displaced {visit : Visit} (hstep : (shared ⟨c⟩).Step visit s') :
    ∃ c', s' = shared ⟨c'⟩ ∧ c'.displaced = c.displaced + visit.counted.evictions := by
  cases visit with
  | lookup request hit =>
    obtain ⟨rfl, rfl⟩ := step_lookup_shared hstep
    exact ⟨_, rfl, c.displaced_get request.key⟩
  | insertion request displaced =>
    obtain ⟨rfl, rfl⟩ := step_insertion_shared hstep
    refine ⟨_, rfl, (c.displaced_put request.key request.stored).trans ?_⟩
    cases (c.put request.key request.stored).1.isSome <;> rfl

theorem Runs.displaced {visits : List Visit} (hruns : (shared ⟨c⟩).Runs visits s') :
    ∃ c', s' = shared ⟨c'⟩ ∧
      c'.displaced = c.displaced + (visits.map Visit.counted).sum.evictions := by
  induction visits generalizing c with
  | nil =>
    cases hruns
    exact ⟨c, rfl, rfl⟩
  | cons visit visits ih =>
    cases hruns with
    | cons hstep hrest =>
      rcases hstep.displaced with ⟨c₁, rfl, hfirst⟩
      rcases ih hrest with ⟨c₂, rfl, hsum⟩
      refine ⟨c₂, rfl, ?_⟩
      rw [hsum, hfirst, List.map_cons, List.sum_cons, Counts.evictions_add, Nat.add_assoc]

end Subject

theorem Counts.evictions_sum (tallies : List Tally) :
    (tallies.map Tally.counts).sum.evictions = (tallies.map (·.evictions)).sum := by
  induction tallies with
  | nil => rfl
  | cons t tallies ih =>
    rw [List.map_cons, List.sum_cons, List.map_cons, List.sum_cons, Counts.evictions_add, ih]
    rfl

/-! ## The tally -/

section

variable {m : Type → Type} {ps : PostShape} [Monad m] [WPMonad m ps] {meter : Meter m}

/-- Whatever the workers have to replay and whatever turns they take, they count as
evictions the evictions and the updates of the cache. -/
theorem evictions_tallied (hmeter : meter.Faithful) (config : Config) (turns : List Nat)
    (scripts : List (List Request)) :
    ⦃⌜True⌝⦄ replayScripts meter turns scripts (.shared ⟨.new config⟩)
    ⦃⇓ r => ⌜∃ c, r.2 = .shared ⟨c⟩ ∧
      (r.1.map (·.evictions)).sum = c.metrics.core.evictions + c.metrics.core.updates⌝⦄ := by
  have hreplay := replayScripts_spec hmeter
  mvcgen [hreplay]
  mframe
  rename_i r hprogress
  mpure_intro
  rcases hprogress with ⟨visits, hruns, hadvance⟩
  rcases hruns.displaced with ⟨c, hc, hdisplaced⟩
  refine ⟨c, hc, ?_⟩
  have hcounts : 0 + (visits.map Visit.counted).sum = (r.1.map Tally.counts).sum :=
    hadvance.counts_eq
  rw [zero_add] at hcounts
  have hnew : (Cache.new config : Cache String Nat).displaced = 0 := rfl
  rw [hnew, hcounts, Counts.evictions_sum, Nat.zero_add] at hdisplaced
  exact hdisplaced.symm

/-- A cache for two entries under `lru`, and two workers that ask for the same object.
Both of them miss before either of them inserts, so the second insertion is an update:
one eviction is counted, the cache has made one update and no eviction. -/
theorem evictions_tallied_two_workers :
    let request : Request := ⟨0, "a", 10, 0⟩
    let r := (replayScripts (Meter.still : Meter Id) [0, 1, 0, 1] [[request], [request]]
      (.shared ⟨.new ⟨2, .lru, Nat.two_pos⟩⟩)).run
    (Meter.still : Meter Id).Faithful ∧ ∃ c, r.2 = .shared ⟨c⟩ ∧
      (r.1.map (·.evictions)).sum = c.metrics.core.evictions + c.metrics.core.updates := by
  intro request r
  have hmeter : (Meter.still : Meter Id).Faithful := .still
  have htallied := evictions_tallied hmeter ⟨2, .lru, Nat.two_pos⟩ [0, 1, 0, 1]
    [[request], [request]]
  exact ⟨hmeter, htallied trivial⟩

end

/-! ## A race -/

namespace Cache

variable {κ ν : Type} [DecidableEq κ] [Hashable κ] {c : Cache κ ν} {key : κ}

theorem get_of_none (hnone : c.peek? key = none) : c.get key = (none, c.record .miss) := by
  rw [get, hnone]

/-- A new key takes room that is there, and then its value is found. -/
theorem put_of_room (hnone : c.peek? key = none) (hroom : c.size < c.capacity) (value : ν) :
    (c.put key value).1 = none ∧ (c.put key value).2.peek? key = some value ∧
      (c.put key value).2.metrics.core = c.metrics.core.record .insertion := by
  have hfits : ¬ c.capacity ≤ c.size := Nat.not_le.mpr hroom
  refine ⟨?_, ?_, ?_⟩
  · rw [put, hnone, if_neg hfits]
  · rw [put, hnone, if_neg hfits]
    exact Std.HashMap.getElem?_insert_self
  · rw [core_put_of_none c hnone, if_neg hfits]

end Cache

/-- Two workers that look the same key up before either of them inserts it. -/
theorem replayScripts_race {s s₁ s₂ s₃ s₄ : Subject} {request : Request} {first second : Bool}
    (hget : s.get request.key = (false, s₁)) (hget' : s₁.get request.key = (false, s₂))
    (hput : s₂.put request.key request.stored = (first, s₃))
    (hput' : s₃.put request.key request.stored = (second, s₄)) :
    let r := (replayScripts (Meter.still : Meter Id) [0, 1, 0, 1] [[request], [request]] s).run
    r.1.map (·.evictions) = [first.toNat, second.toNat] ∧ r.2 = s₄ := by
  simp [replayScripts, takeTurns, Worker.step, Tally.lookUp, Tally.fill, Meter.still, hget, hget',
    hput, hput', finishAll, Worker.finish, Tally.replayAll, Tally.noteLookup,
    Tally.noteInsertion, Tally.empty]
  cases first <;> cases second <;> simp

/-- In any new cache, such a race makes an update that is counted as an eviction. -/
theorem replayScripts_race_new (config : Config) (request : Request) :
    let r := (replayScripts (Meter.still : Meter Id) [0, 1, 0, 1] [[request], [request]]
      (.shared ⟨.new config⟩)).run
    (r.1.map (·.evictions)).sum = 1 ∧
      ∃ c, r.2 = .shared ⟨c⟩ ∧ c.metrics.core.evictions = 0 ∧ c.metrics.core.updates = 1 := by
  let c : Cache String Nat := .new config
  have hnone : c.peek? request.key = none := (Cache.Shows.new config).value_eq request.key
  -- two misses leave the cache empty
  let missed := (c.record .miss).record .miss
  have hget : (Subject.shared ⟨c⟩).get request.key = (false, .shared ⟨c.record .miss⟩) := by
    rw [Subject.get, Shared.get, Cache.get_of_none hnone]
    rfl
  have hget' : (Subject.shared ⟨c.record .miss⟩).get request.key = (false, .shared ⟨missed⟩) := by
    have hnone' : (c.record .miss).peek? request.key = none := hnone
    rw [Subject.get, Shared.get, Cache.get_of_none hnone']
    rfl
  have hroom : missed.size < missed.capacity := config.capacity_pos
  rcases Cache.put_of_room (c := missed) hnone hroom request.stored with ⟨hanswer, hfound, hcore⟩
  -- the first insertion takes free room, the second one finds the value of the first
  let first := (missed.put request.key request.stored).2
  let second := (first.put request.key request.stored).2
  have hput : (Subject.shared ⟨missed⟩).put request.key request.stored = (false, .shared ⟨first⟩) :=
    congrArg (fun entry => (entry.isSome, Subject.shared ⟨first⟩)) hanswer
  have hput' : (Subject.shared ⟨first⟩).put request.key request.stored = (true, .shared ⟨second⟩) :=
    congrArg (fun entry => (entry.isSome, Subject.shared ⟨second⟩))
      (Cache.put_fst_of_some hfound request.stored)
  rcases replayScripts_race hget hget' hput hput' with ⟨htallies, hfinal⟩
  refine ⟨?_, second, hfinal, ?_⟩
  · rw [htallies]
    rfl
  · have hcore' : second.metrics.core = first.metrics.core.record .update :=
      first.core_put_of_some hfound request.stored
    rw [hcore', hcore]
    exact ⟨rfl, rfl⟩

/-- A cache for two entries under `lru`: an eviction is counted that the cache has not made. -/
theorem evictions_tallied_race :
    let request : Request := ⟨0, "a", 10, 0⟩
    let r := (replayScripts (Meter.still : Meter Id) [0, 1, 0, 1] [[request], [request]]
      (.shared ⟨.new ⟨2, .lru, Nat.two_pos⟩⟩)).run
    ∃ c, r.2 = .shared ⟨c⟩ ∧ (r.1.map (·.evictions)).sum = 1 ∧ c.metrics.core.evictions = 0 := by
  intro request r
  rcases replayScripts_race_new ⟨2, .lru, Nat.two_pos⟩ request with ⟨htallied, c, hc, hevictions, -⟩
  exact ⟨c, hc, htallied, hevictions⟩

/-! ## No race in sequence -/

namespace Cache

variable {κ ν : Type} [DecidableEq κ] [Hashable κ] {c : Cache κ ν} {key : κ}

theorem evictions_get (c : Cache κ ν) (key : κ) :
    (c.get key).2.metrics.core.evictions = c.metrics.core.evictions := by
  rw [core_get]
  split <;> rfl

/-- An insertion of an absent key displaces an entry exactly if it evicts one. -/
theorem evictions_put_of_none (hnone : c.peek? key = none) (value : ν) :
    (c.put key value).2.metrics.core.evictions =
      c.metrics.core.evictions + (c.put key value).1.isSome.toNat := by
  have hdisplaced := c.displaced_put key value
  have hupdates : (c.put key value).2.metrics.core.updates = c.metrics.core.updates := by
    rw [core_put_of_none c hnone]
    split
    · rw [core_evict]
      split <;> rfl
    · rfl
  rw [displaced, displaced, hupdates] at hdisplaced
  omega

end Cache

namespace Subject

/-- A request in sequence is inserted while it is absent, so what it displaces has
been evicted. -/
theorem serve_evictions (n : Counts) (c : Cache String Nat) (request : Request) :
    ∃ n' c', serve (n, cache c) request = (n', cache c') ∧
      n'.evictions + c.metrics.core.evictions = n.evictions + c'.metrics.core.evictions := by
  cases hpeek : c.peek? request.key with
  | some value =>
    have hget : (cache c).get request.key = (true, cache (c.get request.key).2) := by
      rw [get, Cache.get, hpeek]
      rfl
    refine ⟨_, _, serve_of_hit hget, ?_⟩
    rw [c.evictions_get]
    rfl
  | none =>
    have hget : (cache c).get request.key = (false, cache (c.record .miss)) := by
      rw [get, Cache.get_of_none hpeek]
      rfl
    have habsent : (c.record .miss).peek? request.key = none := hpeek
    have hput : (cache (c.record .miss)).put request.key request.stored =
      (((c.record .miss).put request.key request.stored).1.isSome,
        cache ((c.record .miss).put request.key request.stored).2) := rfl
    refine ⟨_, _, serve_of_miss hget hput, ?_⟩
    have hevictions := Cache.evictions_put_of_none habsent request.stored
    have hsame : (c.record .miss).metrics.core.evictions = c.metrics.core.evictions := rfl
    rw [hevictions, hsame, Counts.noteInsertion_eq, Counts.evictions_add]
    cases ((c.record .miss).put request.key request.stored).1.isSome with
    | true => exact Nat.add_right_comm _ _ _
    | false => rfl

theorem serveAll_evictions (n : Counts) (c : Cache String Nat) (requests : List Request) :
    ∃ n' c', requests.foldl serve (n, cache c) = (n', cache c') ∧
      n'.evictions + c.metrics.core.evictions = n.evictions + c'.metrics.core.evictions := by
  induction requests generalizing n c with
  | nil => exact ⟨n, c, rfl, rfl⟩
  | cons request requests ih =>
    rcases serve_evictions n c request with ⟨n₁, c₁, hserve, hfirst⟩
    rcases ih n₁ c₁ with ⟨n₂, c₂, hrest, hlater⟩
    refine ⟨n₂, c₂, ?_, ?_⟩
    · rw [List.foldl_cons, hserve, hrest]
    · omega

end Subject

/-- A replay in sequence counts exactly the evictions of the cache. -/
theorem replaySequential_evictions {m : Type → Type} {ps : PostShape} [Monad m] [WPMonad m ps]
    {meter : Meter m} (hmeter : meter.Faithful) (config : Config) (requests : List Request) :
    ⦃⌜True⌝⦄ replaySequential meter requests (.cache (.new config))
    ⦃⇓ r => ⌜∃ c, r.2 = .cache c ∧ r.1.evictions = c.metrics.core.evictions⌝⦄ := by
  have hreplay := replaySequential_spec hmeter
  mvcgen [hreplay]
  mframe
  rename_i r hfold
  mpure_intro
  rcases Subject.serveAll_evictions {} (.new config) requests with ⟨n, c, hserved, hevictions⟩
  rw [hserved] at hfold
  rcases Prod.mk.inj hfold with ⟨hcounts, hs⟩
  refine ⟨c, hs, ?_⟩
  have hnew : (Cache.new config : Cache String Nat).metrics.core.evictions = 0 := rfl
  have htallied : r.1.evictions = n.evictions := congrArg Counts.evictions hcounts
  rw [hnew] at hevictions
  rw [htallied]
  exact hevictions.trans (Nat.zero_add _)

end CacheLab
