import CacheLab.Proofs.Cache.Events
import Mathlib.Data.Finset.Card

/-!
# CacheLab.Proofs.Cache.Levels — the spread of the access counts is up to date

A cache that evicts by frequency keeps a copy of the lowest and the highest access count and
of the number of distinct counts. The tracker reads them off its buckets, and every operation
has to copy them again once the tracker has come to rest.

* `Frequency.Consistent.spread`: no bucket is empty and the counts ascend, so the ends and the
  length of the list of buckets are the extremes and the number of the counts of the keys.
* `perform_fresh` is the step lemma for the copy: where it was fresh before a call
  (`Cache.Fresh`), it is fresh after it.
* `increments?_perform` is the step lemma for the promotions: a hit or an update is one, as
  long as the count of its key has not come to the limit.
* `levels_spread` puts them together over a run, and `count_le_length` tells when no count
  comes to the limit.
-/

namespace CacheLab

variable {κ ν : Type} [DecidableEq κ] [Hashable κ]

/-! ## Counts of the tracked keys -/

/-- An ascending list has its least number first and its greatest one last. -/
theorem ascending_ends {l numbers : List Nat} (hascending : l.Pairwise (· < ·))
    (hmem : ∀ n, n ∈ numbers ↔ n ∈ l) :
    numbers.min? = l.head? ∧ numbers.max? = l.getLast? ∧ numbers.toFinset.card = l.length := by
  have hnil : l = [] → numbers = [] := by
    rintro rfl
    apply List.eq_nil_iff_forall_not_mem.mpr
    intro n hn
    exact List.not_mem_nil ((hmem n).mp hn)
  refine ⟨?_, ?_, ?_⟩
  · cases l with
    | nil =>
      rw [hnil rfl]
      rfl
    | cons a l =>
      rw [List.head?_cons, List.min?_eq_some_iff]
      refine ⟨(hmem a).mpr List.mem_cons_self, ?_⟩
      intro n hn
      rcases List.mem_cons.mp ((hmem n).mp hn) with rfl | hlater
      · exact Nat.le_refl n
      · exact Nat.le_of_lt ((List.pairwise_cons.mp hascending).1 n hlater)
  · cases l using List.reverseRecOn with
    | nil =>
      rw [hnil rfl]
      rfl
    | append_singleton l a =>
      rw [List.getLast?_concat, List.max?_eq_some_iff]
      refine ⟨(hmem a).mpr List.mem_concat_self, ?_⟩
      intro n hn
      rcases List.mem_append.mp ((hmem n).mp hn) with hearlier | hlast
      · exact Nat.le_of_lt ((List.pairwise_append.mp hascending).2.2 n hearlier a
          List.mem_cons_self)
      · exact Nat.le_of_eq (List.mem_singleton.mp hlast)
  · have hnodup : l.Nodup := hascending.imp Nat.ne_of_lt
    have hset : numbers.toFinset = l.toFinset := by
      ext n
      rw [List.mem_toFinset, List.mem_toFinset, hmem]
    rw [hset, List.toFinset_card_of_nodup hnodup]

namespace Frequency.Consistent

variable {t : Frequency κ}

/-- The counts of the buckets are the counts of the keys. -/
theorem mem_counts_iff (ht : t.Consistent) (n : Nat) :
    n ∈ Rungs.counts t.buckets.entries ↔ n ∈ t.queue.map (·.2) := by
  constructor
  · intro hn
    rcases List.mem_map.mp hn with ⟨rung, hrung, rfl⟩
    -- the bucket of this count has a first key
    rcases List.exists_mem_of_ne_nil _ (ht.occupied rung hrung) with ⟨q, hq⟩
    have hleaving := List.mem_reverse.mpr
      (List.mem_map_of_mem (f := fun q : Handle × κ => (q.2, rung.2.frequency)) hq)
    have hqueued : (q.2, rung.2.frequency) ∈ t.queue :=
      List.mem_flatMap.mpr ⟨rung, hrung, hleaving⟩
    exact List.mem_map_of_mem (f := (·.2)) hqueued
  · intro hn
    rcases List.mem_map.mp hn with ⟨p, hp, rfl⟩
    exact Rungs.count_mem hp

/-- The ends and the length of the list of buckets are the extremes and the number of the
counts. -/
theorem spread (ht : t.Consistent) {numbers : List Nat}
    (hnumbers : numbers.Perm (t.queue.map (·.2))) :
    t.lowest? = numbers.min? ∧ t.highest? = numbers.max? ∧
      t.levels = numbers.toFinset.card := by
  have hmem : ∀ n, n ∈ numbers ↔ n ∈ Rungs.counts t.buckets.entries := by
    intro n
    rw [hnumbers.mem_iff, ht.mem_counts_iff]
  rcases ascending_ends ht.layout.ladder.ascending hmem with ⟨hmin, hmax, hcard⟩
  rcases ht.layout.ladder.shape with ⟨vacant, hs⟩
  rw [hmin, hmax, hcard]
  refine ⟨?_, ?_, ?_⟩
  · rw [lowest?, hs.front?_eq, Option.map_map, Rungs.counts, List.head?_map]
    rfl
  · rw [highest?, hs.back?_eq, Option.map_map, Rungs.counts, List.getLast?_map]
    rfl
  · rw [levels, hs.length_eq, Rungs.counts, List.length_map]

end Frequency.Consistent

/-- An access moves the count of its key on. -/
theorem Tracker.Consistent.frequency?_access {t : Tracker κ} {key : κ} {count : Nat}
    (ht : t.Consistent) (hlfu : t.policy = .lfu) (hcount : t.frequency? key = some count) :
    (t.access key).frequency? key = some (Policy.lfu.nextCount count) := by
  rcases ht.access key with ⟨hconsistent, hpolicy, hqueue⟩
  rw [ht.frequency?_eq, if_pos hlfu] at hcount
  rw [hconsistent.frequency?_eq, hpolicy, if_pos hlfu,
    Pairs.lookup_eq_some_iff_mem hconsistent.keys_nodup, hqueue, hlfu,
    EvictionQueue.access_of_lookup rfl hcount, (EvictionQueue.place_perm _ _ _).mem_iff]
  exact List.mem_cons_self

namespace Cache

variable {c : Cache κ ν} {config : Config} {key : κ} {count : Nat}

/-- The access counts of the keys in the cache. -/
def counts (c : Cache κ ν) : List Nat := c.store.keys.filterMap c.frequency?

theorem Shows.counts_perm {v : View κ ν} (hc : c.Shows config v) (hv : v.Sound config)
    (hlfu : config.policy = .lfu) : c.counts.Perm (v.queue.map (·.2)) := by
  have hkeys : c.store.keys.Perm v.queue.keys := by
    rw [← hc.queue_eq]
    exact (hc.keys_perm hv).symm.trans c.tracker.keys_perm
  have hlookup : c.frequency? = fun key => v.queue.lookup key := by
    funext key
    rw [hc.frequency?_eq, if_pos hlfu]
  rw [← Pairs.filterMap_lookup hv.keys_nodup, counts, hlookup]
  exact hkeys.filterMap _

namespace Sound

/-- A key in the cache has an access count. -/
theorem frequency?_of_some (hc : c.Sound config) (hlfu : config.policy = .lfu) {value : ν}
    (hpeek : c.peek? key = some value) : ∃ count, c.frequency? key = some count := by
  rcases hc with ⟨v, hshows, hsound⟩
  rw [← Option.isSome_iff_exists, hshows.frequency?_eq, if_pos hlfu, Option.isSome_iff_ne_none, Ne,
    Pairs.lookup_eq_none_iff_notMem, not_not]
  apply (hsound.mem_keys_iff key).mpr
  rw [← hshows.value_eq, hpeek]
  rfl

/-- Each key in the cache is counted. -/
theorem length_counts (hc : c.Sound config) (hlfu : config.policy = .lfu) :
    c.counts.length = c.size := by
  rcases hc with ⟨v, hshows, hsound⟩
  rw [(hshows.counts_perm hsound hlfu).length_eq, List.length_map, hshows.size_eq hsound]

/-- What the tracker tells of the counts. -/
theorem spread (hc : c.Sound config) (hlfu : config.policy = .lfu) :
    c.tracker.lowest? = c.counts.min? ∧ c.tracker.highest? = c.counts.max? ∧
      c.tracker.levels = c.counts.toFinset.card := by
  rcases hc with ⟨v, hshows, hsound⟩
  have hperm := hshows.counts_perm hsound hlfu
  have hconsistent := hshows.consistent
  have hpolicy := hshows.policy_eq.trans hlfu
  rw [← hshows.queue_eq] at hperm
  cases htracker : c.tracker <;> rw [htracker] at hperm hconsistent hpolicy
  case lru => cases hpolicy
  case fifo => cases hpolicy
  case lfu order => exact Frequency.Consistent.spread hconsistent hperm

end Sound

/-! ## The copy -/

/-- The copy of the spread, if there is one, is up to date. -/
def Fresh (c : Cache κ ν) : Prop :=
  ∀ levels, c.metrics.levels = some levels →
    levels.lowest = c.tracker.lowest?.getD 0 ∧ levels.highest = c.tracker.highest?.getD 0 ∧
      levels.active = c.tracker.levels

theorem fresh_new (config : Config) : (new config : Cache κ ν).Fresh := by
  intro levels hlevels
  have hpolicy : (if config.policy = .lfu then some ({} : Levels) else none) = some levels :=
    hlevels
  split at hpolicy
  case isTrue hlfu =>
    obtain rfl := Option.some.inj hpolicy
    show 0 = (Tracker.new config.policy : Tracker κ).lowest?.getD 0 ∧
      0 = (Tracker.new config.policy : Tracker κ).highest?.getD 0 ∧
      0 = (Tracker.new config.policy : Tracker κ).levels
    rw [hlfu]
    exact ⟨rfl, rfl, rfl⟩
  case isFalse => cases hpolicy

theorem fresh_refreshLevels (c : Cache κ ν) : c.refreshLevels.Fresh := by
  intro levels hlevels
  rcases Option.map_eq_some_iff.mp hlevels with ⟨before, -, rfl⟩
  exact ⟨rfl, rfl, rfl⟩

theorem Fresh.touch (hc : c.Fresh) (key : κ) : (c.touch key).Fresh := by
  unfold Cache.touch
  split
  · exact fresh_refreshLevels _
  · exact hc

/-- Each call leaves the copy up to date. -/
theorem perform_fresh (hc : c.Fresh) (call : Call κ ν) : (c.perform call).2.Fresh := by
  have hremove : ∀ key, (c.remove key).2.Fresh := by
    intro key
    unfold remove
    cases c.peek? key with
    | none => exact hc
    | some value => exact fresh_refreshLevels _
  cases call with
  | put key value =>
    show (c.put key value).2.Fresh
    unfold put
    cases c.peek? key with
    | none => exact fresh_refreshLevels _
    | some old => exact Fresh.touch (c := { c with store := c.store.insert key value }) hc key
  | get key =>
    show (c.get key).2.Fresh
    unfold get
    cases c.peek? key with
    | none => exact hc
    | some value => exact hc.touch key
  | modify key f =>
    show (c.modify key f).2.Fresh
    unfold modify
    cases c.peek? key with
    | none => exact hc
    | some value => exact hc.touch key
  | remove key => exact hremove key
  | erase key => exact hremove key
  | pop => exact fresh_refreshLevels _
  | clear => exact fresh_refreshLevels _
  | contains key => exact hc
  | peek key => exact hc
  | victim => exact hc
  | frequency key => exact hc

theorem run_fresh (hc : c.Fresh) (calls : List (Call κ ν)) : (c.run calls).2.Fresh := by
  induction calls generalizing c with
  | nil => exact hc
  | cons call calls ih => exact ih (perform_fresh hc call)

/-! ## Promotions -/

/-- The number of promotions, where they are counted. -/
def increments? (c : Cache κ ν) : Option Nat := c.metrics.levels.map (·.increments)

theorem increments?_refreshLevels (c : Cache κ ν) :
    c.refreshLevels.increments? = c.increments? := by
  show (c.metrics.levels.map _).map _ = c.metrics.levels.map _
  rw [Option.map_map]
  rfl

theorem increments?_evict (c : Cache κ ν) : (c.evict).2.increments? = c.increments? := by
  unfold evict
  rcases c.tracker.evict with ⟨_ | key, tracker⟩
  · rfl
  · rcases hremove : c.store.remove key with ⟨_ | value, store⟩ <;> simp only [hremove] <;> rfl

theorem increments?_put_of_none (hnone : c.peek? key = none) (value : ν) :
    (c.put key value).2.increments? = c.increments? := by
  unfold put
  rw [hnone]
  show (refreshLevels _).increments? = _
  rw [increments?_refreshLevels]
  show (if c.capacity ≤ c.size then c.evict else (none, c)).2.increments? = _
  split
  · exact c.increments?_evict
  · rfl

theorem increments?_remove (c : Cache κ ν) (key : κ) :
    (c.remove key).2.increments? = c.increments? := by
  unfold remove
  cases c.peek? key with
  | none => rfl
  | some value => exact increments?_refreshLevels _

/-- An access to a key that can be promoted is a promotion. -/
theorem increments?_touch (hconsistent : c.tracker.Consistent) (hlfu : c.tracker.policy = .lfu)
    (hpolicy : c.policy = .lfu) (hcount : c.frequency? key = some count)
    (hbelow : count < Frequency.limit) :
    (c.touch key).increments? = c.increments?.map (· + 1) := by
  have htracks : c.policy.tracksAccess = true := by
    rw [hpolicy]
    rfl
  have hcount : c.tracker.frequency? key = some count := hcount
  have hnext : (c.tracker.access key).frequency? key = some (count + 1) := by
    rw [hconsistent.frequency?_access hlfu hcount, Policy.nextCount, Nat.min_eq_left hbelow]
  have hmoved : ¬ (c.tracker.access key).frequency? key = c.tracker.frequency? key := by
    rw [hnext, hcount]
    simp
  unfold touch
  rw [if_pos htracks, increments?_refreshLevels]
  simp only [if_neg hmoved]
  show (c.metrics.levels.map _).map _ = (c.metrics.levels.map _).map _
  rw [Option.map_map, Option.map_map]
  rfl

/-- An access to a key in the cache is a promotion, whatever has become of the store. -/
theorem increments?_touch_of_some (hc : c.Sound config) (hlfu : config.policy = .lfu)
    (hbelow : ∀ key count, c.frequency? key = some count → count < Frequency.limit) {value : ν}
    (hpeek : c.peek? key = some value) (store : Store κ ν) :
    ({ c with store }.touch key).increments? = c.increments?.map (· + 1) := by
  rcases hc.consistent with ⟨hconsistent, hpolicy⟩
  rcases hc.frequency?_of_some hlfu hpeek with ⟨count, hcount⟩
  exact increments?_touch (c := { c with store }) hconsistent (hpolicy.trans hlfu)
    (hc.policy_eq.trans hlfu) hcount (hbelow key count hcount)

/-- The number of promotions grows by one with each hit and each update. -/
theorem increments?_perform (hc : c.Sound config) (hlfu : config.policy = .lfu)
    (hbelow : ∀ key count, c.frequency? key = some count → count < Frequency.limit)
    (call : Call κ ν) :
    (c.perform call).2.increments? =
      c.increments?.map (· + ((c.events call).count .hit + (c.events call).count .update)) := by
  have hsame : c.increments? = c.increments?.map (· + 0) := Option.map_id'.symm
  have hpromote : ∀ key value, c.peek? key = some value → ∀ store,
      ({ c with store }.touch key).increments? = c.increments?.map (· + 1) :=
    fun key value hpeek store => increments?_touch_of_some hc hlfu hbelow hpeek store
  have hremove : ∀ key, (c.remove key).2.increments? =
      c.increments?.map (· + ((c.events (.remove key)).count .hit +
        (c.events (.remove key)).count .update)) := by
    intro key
    rw [increments?_remove, events]
    split <;> exact hsame
  cases call with
  | put key value =>
    show (c.put key value).2.increments? = _
    cases hpeek : c.peek? key with
    | none =>
      rw [increments?_put_of_none hpeek, events, hpeek]
      split
      · contradiction
      · split <;> exact hsame
    | some old =>
      rw [events, put, hpeek]
      exact hpromote key old hpeek _
  | get key =>
    show (c.get key).2.increments? = _
    rw [events, get]
    cases hpeek : c.peek? key with
    | none => exact hsame
    | some value => exact hpromote key value hpeek c.store
  | modify key f =>
    show (c.modify key f).2.increments? = _
    rw [events, modify]
    cases hpeek : c.peek? key with
    | none => exact hsame
    | some value => exact hpromote key value hpeek c.store
  | remove key => exact hremove key
  | erase key => exact hremove key
  | pop =>
    show (refreshLevels (c.evict).2).increments? = _
    rw [increments?_refreshLevels, increments?_evict, events]
    split <;> exact hsame
  | clear => exact (increments?_refreshLevels _).trans hsame
  | contains key => exact hsame
  | peek key => exact hsame
  | victim => exact hsame
  | frequency key => exact hsame

/-- Over a run the number of promotions grows by the hits and the updates. -/
theorem increments?_run (hc : c.Sound config) (hlfu : config.policy = .lfu)
    (calls : List (Call κ ν))
    (hbelow : ∀ prior, prior <+: calls → ∀ key count,
      (c.run prior).2.frequency? key = some count → count < Frequency.limit) :
    (c.run calls).2.increments? =
      c.increments?.map (· + ((c.history calls).count .hit + (c.history calls).count .update)) := by
  induction calls generalizing c with
  | nil => exact Option.map_id'.symm
  | cons call calls ih =>
    have hfirst := increments?_perform hc hlfu (hbelow [] List.nil_prefix) call
    have hrest := ih (hc.perform call) fun prior hprior =>
      hbelow (call :: prior) (List.cons_prefix_cons.mpr ⟨rfl, hprior⟩)
    show ((c.perform call).2.run calls).2.increments? = _
    rw [hrest, hfirst, Option.map_map, history, List.count_append, List.count_append]
    congr 1
    funext n
    show n + _ + _ = n + _
    omega

end Cache

/-! ## Runs where no count comes to the limit -/

section

variable {q : EvictionQueue κ} {v : View κ ν} {n : Nat}

omit [Hashable κ] in
/-- An access lets no count grow by more than one. -/
theorem EvictionQueue.count_access_le (policy : Policy) (key : κ) (hq : ∀ p ∈ q, p.2 ≤ n) :
    ∀ p ∈ q.access policy key, p.2 ≤ n + 1 := by
  intro p hp
  unfold EvictionQueue.access at hp
  split at hp
  · split at hp
    case h_1 => exact Nat.le_succ_of_le (hq p hp)
    case h_2 count hlookup =>
      have hcount : count ≤ n := hq _ (Pairs.mem_of_lookup_eq_some hlookup)
      rcases List.mem_cons.mp ((EvictionQueue.place_perm _ _ _).mem_iff.mp hp) with rfl | hother
      · have hnext : policy.nextCount count ≤ count + 1 := by
          cases policy with
          | lru => exact Nat.le_succ count
          | fifo => exact Nat.le_succ count
          | lfu => exact Nat.min_le_left _ _
        exact Nat.le_trans hnext (Nat.succ_le_succ hcount)
      · exact Nat.le_succ_of_le (hq p (List.mem_of_mem_filter hother))
  · exact Nat.le_succ_of_le (hq p hp)

omit [Hashable κ] in
theorem View.count_evict_le (hv : ∀ p ∈ v.queue, p.2 ≤ n) : ∀ p ∈ v.evict.2.queue, p.2 ≤ n := by
  unfold View.evict
  split
  · exact hv
  case h_2 key count queue hqueue =>
    intro p hp
    exact hv p (hqueue ▸ List.mem_cons_of_mem _ hp)

omit [Hashable κ] in
theorem View.count_makeRoom_le (hv : ∀ p ∈ v.queue, p.2 ≤ n) (capacity : Nat) :
    ∀ p ∈ (v.makeRoom capacity).2.queue, p.2 ≤ n := by
  unfold View.makeRoom
  split
  · exact View.count_evict_le hv
  · exact hv

omit [Hashable κ] in
/-- Neither does a call. -/
theorem View.count_perform_le (config : Config) (hv : ∀ p ∈ v.queue, p.2 ≤ n) (call : Call κ ν) :
    ∀ p ∈ (v.perform config call).2.queue, p.2 ≤ n + 1 := by
  have hstays : ∀ p ∈ v.queue, p.2 ≤ n + 1 := fun p hp => Nat.le_succ_of_le (hv p hp)
  have hdrop : ∀ key, ∀ p ∈ (v.drop key).queue, p.2 ≤ n + 1 := fun key p hp =>
    hstays p (List.mem_of_mem_filter hp)
  cases call with
  | put key value =>
    show ∀ p ∈ (v.put config key value).2.queue, p.2 ≤ n + 1
    unfold View.put
    cases v.value key with
    | some old => exact EvictionQueue.count_access_le config.policy key hv
    | none =>
      intro p hp
      rcases List.mem_cons.mp ((EvictionQueue.place_perm _ _ _).mem_iff.mp hp) with rfl | hother
      · exact Nat.succ_le_succ (Nat.zero_le n)
      · exact Nat.le_succ_of_le (View.count_makeRoom_le hv config.capacity p hother)
  | get key => exact EvictionQueue.count_access_le config.policy key hv
  | modify key f => exact EvictionQueue.count_access_le config.policy key hv
  | remove key => exact hdrop key
  | erase key => exact hdrop key
  | pop => exact fun p hp => Nat.le_succ_of_le (View.count_evict_le hv p hp)
  | clear => exact nofun
  | contains key => exact hstays
  | peek key => exact hstays
  | victim => exact hstays
  | frequency key => exact hstays

omit [Hashable κ] in
theorem View.count_run_le (config : Config) (hv : ∀ p ∈ v.queue, p.2 ≤ n)
    (calls : List (Call κ ν)) :
    ∀ p ∈ (v.run config calls).2.queue, p.2 ≤ n + calls.length := by
  induction calls generalizing v n with
  | nil => exact hv
  | cons call calls ih =>
    intro p hp
    have hle := ih (View.count_perform_le config hv call) p hp
    rw [List.length_cons]
    omega

end

namespace Cache

variable {config : Config}

/-- A count is at most the number of calls. -/
theorem count_le_length (config : Config) (calls : List (Call κ ν)) (key : κ) (count : Nat)
    (hcount : ((new config : Cache κ ν).run calls).2.frequency? key = some count) :
    count ≤ calls.length := by
  rcases (Shows.new config).run View.Sound.empty calls with ⟨-, hshows, hsound⟩
  rw [hshows.frequency?_eq] at hcount
  split at hcount
  · have hmem := Pairs.mem_of_lookup_eq_some hcount
    have hle := View.count_run_le (n := 0) (v := View.empty) config nofun calls _ hmem
    rwa [Nat.zero_add] at hle
  · cases hcount

/-- After any calls on a new cache that evicts by frequency, none of whose counts has come to
the limit: the lowest and the highest access count and the number of distinct counts that the
metrics tell are those of the keys in the cache, each of which has a count, and the promotions
are the hits and the updates. -/
theorem levels_spread (config : Config) (hlfu : config.policy = .lfu) (calls : List (Call κ ν))
    (hbelow : ∀ prior, prior <+: calls → ∀ key count,
      ((new config : Cache κ ν).run prior).2.frequency? key = some count →
        count < Frequency.limit) :
    let c := ((new config : Cache κ ν).run calls).2
    ∃ levels, c.metrics.levels = some levels ∧
      levels.lowest = c.counts.min?.getD 0 ∧ levels.highest = c.counts.max?.getD 0 ∧
      levels.active = c.counts.toFinset.card ∧ c.counts.length = c.size ∧
      levels.increments = c.metrics.core.hits + c.metrics.core.updates := by
  intro c
  have hnew : (new config : Cache κ ν).Sound config := Sound.new config
  have hsound := hnew.run calls
  have hstart : (new config : Cache κ ν).increments? = some 0 := by
    show (if config.policy = .lfu then some ({} : Levels) else none).map (·.increments) = some 0
    rw [if_pos hlfu]
    rfl
  have hincrements := increments?_run hnew hlfu calls hbelow
  rw [hstart, Option.map_some, Nat.zero_add] at hincrements
  rcases Option.map_eq_some_iff.mp hincrements with ⟨levels, hlevels, hpromotions⟩
  rcases run_fresh (fresh_new config) calls levels hlevels with ⟨hlowest, hhighest, hactive⟩
  rcases hsound.spread hlfu with ⟨hmin, hmax, hcard⟩
  rcases Counters.recordAll_counts (new config : Cache κ ν).metrics.core
    ((new config : Cache κ ν).history calls) with ⟨-, hhits, -, hupdates, -⟩
  rw [← core_run] at hhits hupdates
  rw [hmin] at hlowest
  rw [hmax] at hhighest
  rw [hcard] at hactive
  refine ⟨levels, hlevels, hlowest, hhighest, hactive, hsound.length_counts hlfu, ?_⟩
  have hhits : c.metrics.core.hits = ((new config : Cache κ ν).history calls).count .hit :=
    hhits.trans (Nat.zero_add _)
  have hupdates : c.metrics.core.updates = ((new config : Cache κ ν).history calls).count .update :=
    hupdates.trans (Nat.zero_add _)
  rw [hpromotions, hhits, hupdates]

/-- A cache for two entries: key 1 is found twice and key 2 is updated, key 4 is not found, and
key 2 is evicted for key 3. -/
theorem levels_spread_two_entries :
    let config : Config := ⟨2, .lfu, Nat.two_pos⟩
    let calls : List (Call Nat Nat) :=
      [.put 1 10, .put 2 20, .get 1, .modify 1 (· + 1), .put 2 21, .get 4, .put 3 30]
    let c := ((new config : Cache Nat Nat).run calls).2
    (config.policy = .lfu ∧ ∀ prior, prior <+: calls → ∀ key count,
      ((new config : Cache Nat Nat).run prior).2.frequency? key = some count →
        count < Frequency.limit) ∧
    ∃ levels, c.metrics.levels = some levels ∧
      levels.lowest = 1 ∧ levels.highest = 3 ∧ levels.active = 2 ∧
      levels.increments = c.metrics.core.hits + c.metrics.core.updates := by
  intro config calls
  have hbelow : ∀ prior, prior <+: calls → ∀ key count,
      ((new config : Cache Nat Nat).run prior).2.frequency? key = some count →
        count < Frequency.limit := by
    intro prior hprior key count hcount
    have hle := count_le_length config prior key count hcount
    have hlength : prior.length ≤ 7 := hprior.length_le
    have hlimit : 7 < Frequency.limit := by decide
    omega
  rcases levels_spread config rfl calls hbelow with
    ⟨levels, hlevels, hlowest, hhighest, hactive, -, hincrements⟩
  rcases (Shows.new config : Shows (new config : Cache Nat Nat) _ _).run View.Sound.empty calls with
    ⟨-, hshows, hsound⟩
  have hcounts := hshows.counts_perm hsound rfl
  have hqueue : (View.empty.run config calls).2.queue.map (·.2) = [1, 3] := by decide
  rw [hqueue] at hcounts
  -- from here on only the counts matter, not how the calls have led to them
  clear hshows
  generalize (new config : Cache Nat Nat).run calls = r at *
  rcases ascending_ends (by decide) fun n => hcounts.mem_iff (a := n) with ⟨hmin, hmax, hcard⟩
  rw [hmin] at hlowest
  rw [hmax] at hhighest
  rw [hcard] at hactive
  exact ⟨⟨rfl, hbelow⟩, levels, hlevels, hlowest, hhighest, hactive, hincrements⟩

end Cache

end CacheLab
