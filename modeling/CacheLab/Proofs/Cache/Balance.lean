import CacheLab.Proofs.Cache.Events

/-!
# CacheLab.Proofs.Cache.Balance — the counters balance

Nine counters are moved by many operations, some of which count two events and some none.
After any calls on a new cache they still agree with each other and with the cache: each
lookup is a request, each put is an insertion or an update, and an entry that was inserted
has been evicted, removed or dropped, or it is there.

Counters are words, and the number of entries is decremented down to zero and not below.
`Counters.recordExactly?` refuses an event where either of these limits would be felt.

* `Turnover.exact` is the step lemma: as long as the counter of the entries is right and no
  counter exceeds the number of calls made, the events of a call are counted exactly.
* `history_exact` is the run lemma, and `counters_balance` draws the laws from it.
-/

namespace CacheLab

namespace Counters

/-- Counts one event, unless a counter would leave the range of words or an entry would be
taken out where there is none. -/
def recordExactly? (n : Counters) (e : Event) : Except Overflow Counters :=
  if e.takes = true ∧ n.entries = 0 then .error .subtraction else n.record? e

/-- No counter exceeds `k`, the capacity apart. -/
structure Within (k : Nat) (n : Counters) : Prop where
  requests_le : n.requests ≤ k
  hits_le : n.hits ≤ k
  insertions_le : n.insertions ≤ k
  updates_le : n.updates ≤ k
  evictions_le : n.evictions ≤ k
  removals_le : n.removals ≤ k
  clears_le : n.clears ≤ k
  entries_le : n.entries ≤ k

variable {n : Counters} {k : Nat} {e : Event}

theorem capacity_record (n : Counters) (e : Event) : (n.record e).capacity = n.capacity := by
  cases e <;> rfl

/-- One event moves no counter up by more than one. -/
theorem Within.record (hn : n.Within k) (e : Event) : (n.record e).Within (k + 1) := by
  rcases hn with ⟨hrequests, hhits, hinsertions, hupdates, hevictions, hremovals, hclears, hentries⟩
  cases e <;> constructor <;> simp only [Counters.record] <;> omega

/-- Neither do an eviction and an insertion, which move different counters. -/
theorem Within.exchange (hn : n.Within k) :
    ((n.record .eviction).record .insertion).Within (k + 1) := by
  rcases hn with ⟨hrequests, hhits, hinsertions, hupdates, hevictions, hremovals, hclears, hentries⟩
  constructor <;> simp only [Counters.record] <;> omega

theorem Within.mono {m : Nat} (hn : n.Within k) (hle : k ≤ m) : n.Within m := by
  rcases hn with ⟨hrequests, hhits, hinsertions, hupdates, hevictions, hremovals, hclears, hentries⟩
  constructor <;> omega

theorem Within.areWords (hn : n.Within k) (hk : k < wordCount)
    (hcapacity : n.capacity < wordCount) : n.areWords = true := by
  rcases hn with ⟨hrequests, hhits, hinsertions, hupdates, hevictions, hremovals, hclears, hentries⟩
  simp only [Counters.areWords, List.all_cons, List.all_nil, Bool.and_true, Bool.and_eq_true,
    decide_eq_true_eq]
  omega

theorem recordExactly?_eq (hwords : (n.record e).areWords = true)
    (htakes : e.takes = true → 0 < n.entries) : n.recordExactly? e = .ok (n.record e) := by
  have hexact : ¬ (e.takes = true ∧ n.entries = 0) := by
    rintro ⟨htake, hzero⟩
    have hpos := htakes htake
    omega
  rw [recordExactly?, if_neg hexact, record?, if_pos hwords]

/-- Counts events exactly, one after another. -/
def recordAllExactly? (n : Counters) (events : List Event) : Except Overflow Counters :=
  events.foldlM recordExactly? n

end Counters

namespace Cache

open Counters

/-- The events of a call are counted exactly. -/
theorem Turnover.exact {events : List Event} {before after dropped k : Nat} {n : Counters}
    (ht : Turnover events before after dropped) (hentries : n.entries = before)
    (hn : n.Within k) (hk : k + 1 < wordCount) (hcapacity : n.capacity < wordCount) :
    n.recordAllExactly? events = .ok (n.recordAll events) ∧
      (n.recordAll events).Within (k + 1) := by
  have single : ∀ e : Event, (e.takes = true → 0 < n.entries) →
      n.recordAllExactly? [e] = .ok (n.recordAll [e]) := by
    intro e htakes
    have hwords := (hn.record e).areWords hk ((n.capacity_record e).symm ▸ hcapacity)
    rw [recordAllExactly?, List.foldlM_cons, recordExactly?_eq hwords htakes]
    rfl
  cases ht with
  | nothing => exact ⟨rfl, hn.mono (Nat.le_succ k)⟩
  | hit => exact ⟨single .hit nofun, hn.record .hit⟩
  | miss => exact ⟨single .miss nofun, hn.record .miss⟩
  | update => exact ⟨single .update nofun, hn.record .update⟩
  | insertion => exact ⟨single .insertion nofun, hn.record .insertion⟩
  | exchange =>
    have hpos : 0 < n.entries := by omega
    have hevicted := (hn.record .eviction).areWords hk hcapacity
    have hinserted := hn.exchange.areWords hk hcapacity
    refine ⟨?_, hn.exchange⟩
    rw [recordAllExactly?, List.foldlM_cons, recordExactly?_eq hevicted fun _ => hpos]
    show (n.record .eviction).recordAllExactly? [.insertion] = _
    rw [recordAllExactly?, List.foldlM_cons, recordExactly?_eq hinserted nofun]
    rfl
  | eviction =>
    have hpos : 0 < n.entries := by omega
    exact ⟨single .eviction fun _ => hpos, hn.record .eviction⟩
  | removal =>
    have hpos : 0 < n.entries := by omega
    exact ⟨single .removal fun _ => hpos, hn.record .removal⟩
  | clear => exact ⟨single .clear nofun, hn.record .clear⟩

variable {κ ν : Type} [DecidableEq κ] [Hashable κ]

/-- A run whose calls are fewer than the words is counted exactly. -/
theorem history_exact {c : Cache κ ν} {k : Nat} (calls : List (Call κ ν))
    (hentries : c.metrics.core.entries = c.size) (hwithin : c.metrics.core.Within k)
    (hcalls : k + calls.length < wordCount) (hcapacity : c.metrics.core.capacity < wordCount) :
    c.metrics.core.recordAllExactly? (c.history calls) = .ok (c.run calls).2.metrics.core := by
  induction calls generalizing c k with
  | nil => rfl
  | cons call calls ih =>
    rw [List.length_cons] at hcalls
    have hk : k + 1 < wordCount := by omega
    have hturnover := c.turnover call
    rcases hturnover.exact hentries hwithin hk hcapacity with ⟨hexact, hnext⟩
    have hafter := hturnover.entries_eq hentries
    rw [← core_perform] at hexact hafter hnext
    have hsame : (c.perform call).2.metrics.core.capacity = c.metrics.core.capacity := by
      rw [core_perform]
      exact (recordAll_counts _ _).2.2.2.2.2.2.2
    have hrest := ih hafter hnext (by omega) (hsame.trans_lt hcapacity)
    show (c.events call ++ (c.perform call).2.history calls).foldlM recordExactly? _ = _
    rw [List.foldlM_append]
    show (c.metrics.core.recordAllExactly? (c.events call) >>= _) = _
    rw [hexact]
    exact hrest

/-- After any calls on a new cache, fewer than there are words: the counter of the entries is
the number of entries, which is at most the capacity; the requests are the lookups, of which
the hits are those that found their key; insertions and updates are the puts; and an inserted
entry was evicted, removed or dropped, or it is there. No event of the run has moved a counter
beyond the words or has taken an entry out of none. -/
theorem counters_balance (config : Config) (calls : List (Call κ ν))
    (hcapacity : config.capacity < wordCount) (hcalls : calls.length < wordCount) :
    let c : Cache κ ν := new config
    let n := (c.run calls).2.metrics.core
    n.entries = (c.run calls).2.size ∧ n.entries ≤ n.capacity ∧ n.capacity = config.capacity ∧
      n.requests = calls.countP Call.isLookup ∧
      n.hits = (List.zipWith Call.isHit calls (c.run calls).1).count true ∧
      n.misses? = .ok (n.requests - n.hits) ∧
      n.insertions + n.updates = calls.countP Call.isPut ∧
      n.insertions = n.evictions + n.removals + c.dropped calls + n.entries ∧
      c.metrics.core.recordAllExactly? (c.history calls) = .ok n := by
  intro c n
  have hentries : c.metrics.core.entries = c.size := (size_new config).symm
  have hwithin : c.metrics.core.Within 0 := by
    constructor <;> exact Nat.le_refl 0
  have hexact := history_exact calls hentries hwithin (by omega) hcapacity
  rcases counters_run config calls with ⟨hrequests, hhits, hle, hputs, hflow, hsize, hsame⟩
  have hfits := ((Sound.new config).run calls).size_le
  refine ⟨hsize, ?_, hsame, hrequests, hhits, ?_, hputs, hflow, hexact⟩
  · rw [hsize, hsame]
    exact hfits
  · rw [misses?, subWords, if_pos hle]

/-- A cache for two entries: key 2 is evicted and looked up in vain, key 3 is updated, key 1 is
removed, keys 3 and 4 are dropped, and key 5 is popped. -/
theorem counters_balance_two_entries :
    let config : Config := ⟨2, .lfu, Nat.two_pos⟩
    let calls : List (Call Nat Nat) :=
      [.put 1 10, .put 2 20, .get 1, .put 3 30, .get 2, .put 3 33, .remove 1, .put 4 40, .clear,
        .put 5 50, .pop]
    let n := ((new config : Cache Nat Nat).run calls).2.metrics.core
    (config.capacity < wordCount ∧ calls.length < wordCount) ∧
      n.entries = 0 ∧ n.requests = 2 ∧ n.hits = 1 ∧ n.misses? = .ok 1 ∧
      n.insertions + n.updates = 6 ∧ n.insertions = n.evictions + n.removals + 2 := by
  intro config calls n
  have hcapacity : config.capacity < wordCount := by decide
  have hcalls : calls.length < wordCount := by decide
  rcases counters_balance config calls hcapacity hcalls with
    ⟨hentries, -, -, hrequests, hhits, hmisses, hputs, hflow, -⟩
  have hshows := fun prior => (Shows.new config : Shows (new config : Cache Nat Nat) _ _).run
    View.Sound.empty prior
  rcases hshows calls with ⟨hanswers, hlast, hsound⟩
  have hsize : ((new config : Cache Nat Nat).run calls).2.size = 0 :=
    (hlast.size_eq hsound).trans (by decide)
  -- all entries that are dropped are dropped by the one call that clears the cache
  have hdropped : (new config : Cache Nat Nat).dropped calls = 2 := by
    rcases hshows (calls.take 8) with ⟨-, hbefore, hsound'⟩
    have hbefore : ((new config : Cache Nat Nat).run (calls.take 8)).2.size = 2 :=
      (hbefore.size_eq hsound').trans (by decide)
    have hsplit : calls = calls.take 8 ++ [.clear, .put 5 50, .pop] := rfl
    have hnone : (new config : Cache Nat Nat).dropped (calls.take 8) = 0 := by
      simp [calls, dropped, cleared]
    rw [hsplit, dropped_append, hnone]
    simp only [dropped, cleared, hbefore]
  have hfound : (List.zipWith Call.isHit calls ((new config : Cache Nat Nat).run calls).1).count
      true = 1 := by
    rw [hanswers]
    decide
  have hlookups : calls.countP Call.isLookup = 2 := by decide
  have hwrites : calls.countP Call.isPut = 6 := by decide
  rw [hsize] at hentries
  rw [hlookups] at hrequests
  rw [hfound] at hhits
  rw [hwrites] at hputs
  rw [hdropped, hentries] at hflow
  rw [hrequests, hhits] at hmisses
  exact ⟨⟨hcapacity, hcalls⟩, hentries, hrequests, hhits, hmisses, hputs, hflow⟩

end Cache

end CacheLab
