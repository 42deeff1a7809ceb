import CacheLab.Proofs.Simulation.Accounting
import CacheLab.Proofs.Simulation.Workers
import Mathlib.Algebra.Order.BigOperators.Group.List

/-!
# CacheLab.Proofs.Simulation.ConcurrentReplay — a concurrent replay serves each request once

Which requests of a concurrent replay are hits depends on the turns of the workers. That
each of them is looked up once, and inserted once if that was a miss, does not, and
neither does the number of entries in the end.

* `Cache.Stocked` is the invariant that makes the size independent of the turns: a cache
  holds only keys that were inserted, and while there is room it holds all of them.
* `Cache.Stocked.step` keeps it with each visit, and `Cache.Stocked.runs` with a run of visits;
  by the way, a request that was looked up was a miss, or its key had been inserted.
* `Load.Advance.served` and `Load.Advance.numbers`: what the account says when all is done.
* `replayConcurrent_serves` puts this together, for as many workers as there can be a list of.
-/

namespace CacheLab

open Std.Do

set_option mvcgen.warning false

/-! ## The stock of a cache under visits -/

namespace Cache.Stocked

variable {config : Config} {known : Finset String} {c : Cache String Nat} {s' : Subject}

/-- A visit keeps the stock, and a request is looked up in vain unless its key is known. -/
theorem step {visit : Visit} (hc : Stocked config known c)
    (hstep : (Subject.shared ⟨c⟩).Step visit s') :
    ∃ c', s' = .shared ⟨c'⟩ ∧ Stocked config (known ∪ keysOf visit.inserted) c' ∧
      keysOf visit.lookedUp ⊆ known ∪ keysOf visit.missed := by
  cases visit with
  | lookup request hit =>
    obtain ⟨rfl, rfl⟩ := Subject.step_lookup_shared hstep
    have hsame : known ∪ keysOf 0 = known := Finset.union_empty known
    refine ⟨_, rfl, hsame.symm ▸ hc.get request.key, ?_⟩
    cases hfound : (c.get request.key).1.isSome with
    | false => exact Finset.subset_union_right
    | true =>
      apply Finset.Subset.trans _ Finset.subset_union_left
      exact Finset.singleton_subset_iff.mpr (hc.mem_known_of_found hfound)
  | insertion request displaced =>
    obtain ⟨rfl, rfl⟩ := Subject.step_insertion_shared hstep
    exact ⟨_, rfl, hc.put request.key request.stored, Finset.empty_subset _⟩

/-- A run of visits keeps the stock, and each request that is looked up is looked up
in vain unless its key is known in the end. -/
theorem runs {visits : List Visit} (hc : Stocked config known c)
    (hruns : (Subject.shared ⟨c⟩).Runs visits s') :
    ∃ c', s' = .shared ⟨c'⟩ ∧
      Stocked config (known ∪ keysOf (visits.map Visit.inserted).sum) c' ∧
      keysOf (visits.map Visit.lookedUp).sum ⊆
        known ∪ keysOf (visits.map Visit.inserted).sum ∪ keysOf (visits.map Visit.missed).sum := by
  induction visits generalizing known c with
  | nil =>
    cases hruns
    refine ⟨c, rfl, ?_, Finset.empty_subset _⟩
    have hsame : known ∪ keysOf (List.sum []) = known := Finset.union_empty known
    exact hsame.symm ▸ hc
  | cons visit visits ih =>
    cases hruns with
    | cons hstep hrest =>
      rcases hc.step hstep with ⟨c₁, rfl, hc₁, hfound⟩
      rcases ih hc₁ hrest with ⟨c₂, rfl, hc₂, hfound'⟩
      simp only [List.map_cons, List.sum_cons, keysOf_add]
      rw [Finset.union_assoc] at hc₂
      rw [Finset.union_assoc known] at hfound'
      refine ⟨c₂, rfl, hc₂, Finset.union_subset ?_ ?_⟩
      · exact hfound.trans
          (Finset.union_subset_union Finset.subset_union_left Finset.subset_union_left)
      · exact hfound'.trans (Finset.union_subset_union_right Finset.subset_union_right)

end Cache.Stocked

/-! ## The numbers of an account -/

/-- A request that is looked up in vain is looked up. -/
theorem Visit.missed_le (visits : List Visit) :
    (visits.map Visit.missed).sum ≤ (visits.map Visit.lookedUp).sum := by
  apply List.sum_le_sum
  rintro (⟨request, hit⟩ | ⟨request, displaced⟩) -
  · cases hit with
    | true => exact Multiset.zero_le _
    | false => exact le_refl _
  · exact le_refl _

/-- The numbers that are counted are numbers of requests. -/
theorem Visit.counted_eq (visit : Visit) :
    visit.counted.hits + visit.counted.misses = visit.lookedUp.card ∧
      visit.counted.lookups = visit.lookedUp.card ∧
      visit.counted.misses = visit.missed.card ∧
      visit.counted.insertions = visit.inserted.card := by
  rcases visit with ⟨request, hit⟩ | ⟨request, displaced⟩
  · cases hit <;> exact ⟨rfl, rfl, rfl, rfl⟩
  · exact ⟨rfl, rfl, rfl, rfl⟩

theorem Visit.counted_sum (visits : List Visit) :
    (visits.map Visit.counted).sum.hits + (visits.map Visit.counted).sum.misses =
        (visits.map Visit.lookedUp).sum.card ∧
      (visits.map Visit.counted).sum.lookups = (visits.map Visit.lookedUp).sum.card ∧
      (visits.map Visit.counted).sum.misses = (visits.map Visit.missed).sum.card ∧
      (visits.map Visit.counted).sum.insertions = (visits.map Visit.inserted).sum.card := by
  induction visits with
  | nil => exact ⟨rfl, rfl, rfl, rfl⟩
  | cons visit visits ih =>
    rcases visit.counted_eq with ⟨hfound, hlookups, hmisses, hinsertions⟩
    rcases ih with ⟨hfound', hlookups', hmisses', hinsertions'⟩
    simp only [List.map_cons, List.sum_cons, Multiset.card_add, Counts.hits_add,
      Counts.misses_add, Counts.lookups_add, Counts.insertions_add]
    omega

/-- An eviction is counted with an insertion. -/
theorem Visit.evictions_le (visits : List Visit) :
    (visits.map counted).sum.evictions ≤ (visits.map counted).sum.insertions := by
  induction visits with
  | nil => exact Nat.le_refl _
  | cons visit visits ih =>
    have hfirst : visit.counted.evictions ≤ visit.counted.insertions := by
      rcases visit with ⟨request, hit⟩ | ⟨request, displaced⟩
      · exact Nat.le_refl 0
      · cases displaced with
        | true => exact Nat.le_refl 1
        | false => exact Nat.zero_le 1
    rw [List.map_cons, List.sum_cons, Counts.evictions_add, Counts.insertions_add]
    exact Nat.add_le_add hfirst ih

namespace Load.Advance

variable {requests : List Request} {visits : List Visit} {n : Counts}

/-- If all requests are waiting at first and none in the end, then each of them was looked up
once and, if that was in vain, inserted once. -/
theorem served (hadvance : (waiting requests).Advance visits (.done n)) :
    (visits.map Visit.counted).sum = n ∧ (visits.map Visit.lookedUp).sum = requests ∧
      (visits.map Visit.inserted).sum = (visits.map Visit.missed).sum := by
  have hcounts : 0 + (visits.map Visit.counted).sum = n := hadvance.counts_eq
  have hqueued : (requests : Multiset Request) = (visits.map Visit.lookedUp).sum + 0 :=
    hadvance.queued_eq
  have hpending : 0 + (visits.map Visit.missed).sum = (visits.map Visit.inserted).sum + 0 :=
    hadvance.pending_eq
  rw [zero_add] at hcounts
  rw [add_zero] at hqueued
  rw [zero_add, add_zero] at hpending
  exact ⟨hcounts, hqueued.symm, hpending.symm⟩

theorem numbers (hadvance : (waiting requests).Advance visits (.done n)) :
    n.hits + n.misses = requests.length ∧ n.lookups = requests.length ∧
      n.insertions = n.misses ∧ n.evictions ≤ n.insertions := by
  rcases hadvance.served with ⟨hcounts, hqueued, hpending⟩
  rcases Visit.counted_sum visits with ⟨hfound, hlookups, hmisses, hinsertions⟩
  have hevictions := Visit.evictions_le visits
  rw [hcounts, hqueued, Multiset.coe_card] at hfound hlookups
  rw [hcounts] at hmisses hinsertions hevictions
  rw [hpending] at hinsertions
  exact ⟨hfound, hlookups, hinsertions.trans hmisses.symm, hevictions⟩

end Load.Advance

/-! ## Concurrent replays -/

section

variable {m : Type → Type} [Monad m]

/-- A meter that gives the workers the same turns at each batch. -/
def Meter.inTurns (turns : List Nat) : Meter m := { Meter.still with turns _ _ := pure turns }

variable {ps : PostShape} [WPMonad m ps] {meter : Meter m}

theorem Meter.Faithful.inTurns (turns : List Nat) : (Meter.inTurns turns : Meter m).Faithful where
  measure f := Meter.Faithful.still.measure f
  draws := Meter.Faithful.still.draws
  turns workers requests := by
    mvcgen [Meter.inTurns]

/-- Whatever turns the workers take, the cache sees each request looked up once and, if
that was in vain, inserted once after it. The numbers of the tally are the numbers of
these visits, and in the end there is an entry for each requested key, or as many as
the capacity allows. The replay comes to this end if there can be a list of the workers, or if
there is no request for them. -/
theorem replayConcurrent_serves (hmeter : meter.Faithful) (config : Config) {workers : Nat}
    {requests : List Request}
    (hworkers : requests ≠ [] → workers * Worker.bytes ≤ memoryLimit) :
    ⦃⌜True⌝⦄ replayConcurrent meter workers requests (.shared ⟨.new config⟩)
    ⦃⇓ r => ⌜(∃ visits, (Subject.shared ⟨.new config⟩).Runs visits r.2 ∧
        (visits.map Visit.counted).sum = r.1.counts ∧
        (visits.map Visit.lookedUp).sum = requests ∧
        (visits.map Visit.inserted).sum = (visits.map Visit.missed).sum ∧
        ∀ past, past <+: visits →
          (past.map Visit.inserted).sum ≤ (past.map Visit.missed).sum) ∧
      r.1.hits + r.1.misses = requests.length ∧ r.1.gets.count = requests.length ∧
      r.1.puts.count = r.1.misses ∧
      r.2.size = min config.capacity (requests.map (·.key)).toFinset.card⌝⦄ := by
  have hreplay := replayConcurrent_progress hmeter hworkers
  mvcgen [hreplay]
  mframe
  rename_i r hprogress
  mpure_intro
  rcases hprogress with ⟨visits, hruns, hadvance⟩
  rcases hadvance.served with ⟨hcounts, hqueued, hpending⟩
  rcases hadvance.numbers with ⟨hfound, hlookups, hinsertions, -⟩
  refine ⟨⟨visits, hruns, hcounts, hqueued, hpending, ?_⟩, hfound, hlookups, hinsertions, ?_⟩
  · intro past hpast
    have hle := hadvance.inserted_le past hpast
    rwa [Load.waiting, zero_add] at hle
  · rcases (Cache.Stocked.new config).runs hruns with ⟨c, hc, hstocked, hsubset⟩
    -- the keys that were inserted are the keys that were requested
    have hmissed := keysOf_mono (Visit.missed_le visits)
    rw [hpending] at hstocked hsubset
    rw [Finset.empty_union] at hstocked hsubset
    rw [Finset.union_self] at hsubset
    rw [Finset.Subset.antisymm hmissed hsubset, hqueued] at hstocked
    rw [hc]
    exact hstocked.size_eq

/-- Two workers take turns at the trace a a b, so that both of them look a up before
one inserts it. -/
theorem replayConcurrent_serves_two_workers :
    let requests : List Request := [⟨0, "a", 10, 0⟩, ⟨1, "a", 10, 0⟩, ⟨2, "b", 20, 0⟩]
    let meter : Meter Id := .inTurns [0, 1, 0, 1, 0, 0]
    let s : Subject := .shared ⟨.new ⟨3, .lfu, Nat.succ_pos 2⟩⟩
    meter.Faithful ∧ (requests ≠ [] → 2 * Worker.bytes ≤ memoryLimit) ∧
      ∃ r, (replayConcurrent meter 2 requests s).run = .ok r ∧
      (∃ visits, s.Runs visits r.2 ∧
        (visits.map Visit.counted).sum = r.1.counts ∧
        (visits.map Visit.lookedUp).sum = requests ∧
        (visits.map Visit.inserted).sum = (visits.map Visit.missed).sum ∧
        ∀ past, past <+: visits →
          (past.map Visit.inserted).sum ≤ (past.map Visit.missed).sum) ∧
      r.1.hits + r.1.misses = 3 ∧ r.1.gets.count = 3 ∧ r.1.puts.count = r.1.misses ∧
      r.2.size = 2 := by
  intro requests meter s
  have hmeter : meter.Faithful := .inTurns _
  have hworkers : requests ≠ [] → 2 * Worker.bytes ≤ memoryLimit := fun _ => by decide
  have hserves := replayConcurrent_serves hmeter ⟨3, .lfu, Nat.succ_pos 2⟩ hworkers
  have hkeys : min 3 (requests.map (·.key)).toFinset.card = 2 := by decide
  rcases result_of_ends hserves with ⟨r, hrun, hvisits, hfound, hgets, hputs, hsize⟩
  exact ⟨hmeter, hworkers, r, hrun, hvisits, hfound, hgets, hputs, hsize.trans hkeys⟩

/-- The greatest number of workers is too great for a list, so that not even one request is
served. -/
theorem replayConcurrent_serves_too_many :
    (Meter.still : Meter Id).Faithful ∧
      (replayConcurrent (Meter.still : Meter Id) (wordCount - 1) [⟨0, "a", 10, 0⟩]
        (.shared ⟨.new ⟨2, .lru, Nat.two_pos⟩⟩)).run = .error .allocation := by
  refine ⟨.still, ?_⟩
  have hbatch : batches (batchSize - 1) [(⟨0, "a", 10, 0⟩ : Request)] = [[⟨0, "a", 10, 0⟩]] := by
    rw [batches, List.take_nil, List.drop_nil, batches]
  rw [replayConcurrent, hbatch]
  rfl

end

end CacheLab
