import CacheLab.Proofs.Tracker.Representation

/-!
# CacheLab.Proofs.Tracker.Frame — what the uses of a tracker leave alone

A use of a tracker is about one key: the key that it is given, or the victim. Under `lfu` a single
access can make one bucket, drop another and rewrite the links around keys that it is not about,
and still nothing that can be read of these keys changes.

* `Tracking` is what the trackers offer, as a record of operations, so that one statement speaks
  of each of the three orders and of their sum.
* `Tracking.Framed` says what every use returns and what it leaves alone: the relative order of
  the other keys and their access counts (`Tracking.SameApart`).
* `Tracker.Consistent.framed` proves it for the sum. It rests on `sameApart`: listed keys and
  counts are told by the queue, so two queues that agree up to one key show the same of all others.
* Each order embeds into the sum (`Tracking.Embeds`), so its own uses are framed as well.
-/

namespace CacheLab

/-! ## What a tracker offers -/

/-- The readings and the uses of a tracker with states `σ`. -/
structure Tracking (σ κ : Type) where
  keys : σ → List κ
  contains : σ → κ → Bool
  victim? : σ → Option κ
  frequency? : σ → κ → Option Nat
  insert : σ → κ → σ
  access : σ → κ → σ
  evict : σ → Option κ × σ
  remove : σ → κ → Bool × σ
  clear : σ → σ

namespace Tracking

variable {σ σ' κ : Type}

/-- The state after one use. -/
def step (T : Tracking σ κ) (t : σ) : Tracker.Step κ → σ
  | .insert key => T.insert t key
  | .access key => T.access t key
  | .evict => (T.evict t).2
  | .remove key => (T.remove t key).2
  | .clear => T.clear t

/-- The state after some uses, one after another. -/
def steps (T : Tracking σ κ) (t : σ) (uses : List (Tracker.Step κ)) : σ := uses.foldl T.step t

variable [DecidableEq κ]

/-- From `t` to `t'` the keys other than `key` keep their relative order and their counts. -/
structure SameApart (T : Tracking σ κ) (key : κ) (t t' : σ) : Prop where
  keys_eq : (T.keys t').filter (· ≠ key) = (T.keys t).filter (· ≠ key)
  frequency?_eq : ∀ other, other ≠ key → T.frequency? t' other = T.frequency? t other

/-- What each use returns in this state, and what it leaves alone. -/
structure Framed (T : Tracking σ κ) (t : σ) : Prop where
  contains_iff : ∀ key, T.contains t key = true ↔ key ∈ T.keys t
  victim?_eq_none_iff : T.victim? t = none ↔ ∀ key, T.contains t key = false
  evict_fst : (T.evict t).1 = T.victim? t
  keys_evict : T.keys (T.evict t).2 = (T.keys t).filter (some · ≠ T.victim? t)
  frequency?_evict : ∀ other, some other ≠ T.victim? t →
    T.frequency? (T.evict t).2 other = T.frequency? t other
  remove_fst : ∀ key, (T.remove t key).1 = T.contains t key
  keys_remove : ∀ key, T.keys (T.remove t key).2 = (T.keys t).filter (· ≠ key)
  remove : ∀ key, T.SameApart key t (T.remove t key).2
  contains_access : ∀ key, T.contains (T.access t key) key = T.contains t key
  access : ∀ key, T.SameApart key t (T.access t key)
  contains_insert : ∀ key, T.contains (T.insert t key) key = true
  insert : ∀ key, T.SameApart key t (T.insert t key)

/-! ## One tracker inside another -/

/-- The states of one tracker are states of another, with the same readings and the same uses. -/
structure Embeds (f : σ → σ') (T : Tracking σ κ) (T' : Tracking σ' κ) : Prop where
  keys : ∀ t, T'.keys (f t) = T.keys t
  contains : ∀ t key, T'.contains (f t) key = T.contains t key
  victim? : ∀ t, T'.victim? (f t) = T.victim? t
  frequency? : ∀ t key, T'.frequency? (f t) key = T.frequency? t key
  insert : ∀ t key, T'.insert (f t) key = f (T.insert t key)
  access : ∀ t key, T'.access (f t) key = f (T.access t key)
  evict : ∀ t, T'.evict (f t) = ((T.evict t).1, f (T.evict t).2)
  remove : ∀ t key, T'.remove (f t) key = ((T.remove t key).1, f (T.remove t key).2)
  clear : ∀ t, T'.clear (f t) = f (T.clear t)

namespace Embeds

variable {f : σ → σ'} {T : Tracking σ κ} {T' : Tracking σ' κ} {t t' : σ} {key : κ}

omit [DecidableEq κ] in
theorem step (he : Embeds f T T') (t : σ) (use : Tracker.Step κ) :
    T'.step (f t) use = f (T.step t use) := by
  cases use with
  | insert key => exact he.insert t key
  | access key => exact he.access t key
  | evict => exact congrArg Prod.snd (he.evict t)
  | remove key => exact congrArg Prod.snd (he.remove t key)
  | clear => exact he.clear t

omit [DecidableEq κ] in
theorem steps (he : Embeds f T T') (t : σ) (uses : List (Tracker.Step κ)) :
    T'.steps (f t) uses = f (T.steps t uses) := by
  induction uses generalizing t with
  | nil => rfl
  | cons use uses ih =>
    have hrest := ih (T.step t use)
    rw [← he.step] at hrest
    exact hrest

theorem sameApart (he : Embeds f T T') (h : T'.SameApart key (f t) (f t')) :
    T.SameApart key t t' := by
  constructor
  · have hkeys := h.keys_eq
    rwa [he.keys, he.keys] at hkeys
  · intro other hne
    have hcount := h.frequency?_eq other hne
    rwa [he.frequency?, he.frequency?] at hcount

theorem framed (he : Embeds f T T') (h : T'.Framed (f t)) : T.Framed t := by
  constructor
  · intro key
    rw [← he.contains, ← he.keys]
    exact h.contains_iff key
  · rw [← he.victim?, h.victim?_eq_none_iff]
    simp only [he.contains]
  · have hvictim := h.evict_fst
    rwa [he.evict, he.victim?] at hvictim
  · have hkeys := h.keys_evict
    rwa [he.evict, he.keys, he.keys, he.victim?] at hkeys
  · intro other hne
    rw [← he.victim?] at hne
    have hcount := h.frequency?_evict other hne
    rwa [he.evict, he.frequency?, he.frequency?] at hcount
  · intro key
    have hfound := h.remove_fst key
    rwa [he.remove, he.contains] at hfound
  · intro key
    have hkeys := h.keys_remove key
    rwa [he.remove, he.keys, he.keys] at hkeys
  · intro key
    have hsame := h.remove key
    rw [he.remove] at hsame
    exact he.sameApart hsame
  · intro key
    have htracked := h.contains_access key
    rwa [he.access, he.contains, he.contains] at htracked
  · intro key
    have hsame := h.access key
    rw [he.access] at hsame
    exact he.sameApart hsame
  · intro key
    have htracked := h.contains_insert key
    rwa [he.insert, he.contains] at htracked
  · intro key
    have hsame := h.insert key
    rw [he.insert] at hsame
    exact he.sameApart hsame

end Embeds

end Tracking

/-! ## The trackers -/

section

variable {κ : Type} [DecidableEq κ] [Hashable κ]

/-- The order by recency counts no accesses. -/
def Recency.tracking : Tracking (Recency κ) κ where
  keys := keys
  contains := contains
  victim? := victim?
  frequency? _ _ := none
  insert := insert
  access := access
  evict := evict
  remove := remove
  clear := clear

/-- The order by arrival takes no note of accesses. -/
def Arrival.tracking : Tracking (Arrival κ) κ where
  keys := keys
  contains := contains
  victim? := victim?
  frequency? _ _ := none
  insert := insert
  access t _ := t
  evict := evict
  remove := remove
  clear := clear

/-- The order by access count. -/
def Frequency.tracking : Tracking (Frequency κ) κ where
  keys := keys
  contains := contains
  victim? := victim?
  frequency? := frequency?
  insert := insert
  access := access
  evict := evict
  remove := remove
  clear := clear

namespace Tracker

/-- The sum of the three. -/
def tracking : Tracking (Tracker κ) κ where
  keys := keys
  contains := contains
  victim? := victim?
  frequency? := frequency?
  insert := insert
  access := access
  evict := evict
  remove := remove
  clear := clear

theorem tracking_steps (t : Tracker κ) (uses : List (Step κ)) :
    tracking.steps t uses = t.steps uses := by
  have hstep : tracking.step = (step : Tracker κ → Step κ → Tracker κ) := by
    funext t use
    cases use <;> rfl
  rw [Tracking.steps, hstep, steps]

theorem embeds_lru : Tracking.Embeds lru (Recency.tracking : Tracking (Recency κ) κ) tracking := by
  constructor <;> intros <;> rfl

theorem embeds_fifo :
    Tracking.Embeds fifo (Arrival.tracking : Tracking (Arrival κ) κ) tracking := by
  constructor <;> intros <;> rfl

theorem embeds_lfu :
    Tracking.Embeds lfu (Frequency.tracking : Tracking (Frequency κ) κ) tracking := by
  constructor <;> intros <;> rfl

/-! ## Uses of the sum -/

namespace Consistent

variable {t t' : Tracker κ} {key : κ}

/-- Queues that agree up to one key show the same of all other keys. -/
theorem sameApart (ht : t.Consistent) (ht' : t'.Consistent) (hpolicy : t'.policy = t.policy)
    (hqueue : t'.queue.without key = t.queue.without key) : tracking.SameApart key t t' := by
  constructor
  · show t'.keys.filter (· ≠ key) = t.keys.filter (· ≠ key)
    rw [ht'.keys_eq, ht.keys_eq, hpolicy, ← EvictionQueue.listedBy_without, hqueue,
      EvictionQueue.listedBy_without]
  · intro other hne
    show t'.frequency? other = t.frequency? other
    rw [ht'.frequency?_eq, ht.frequency?_eq, hpolicy,
      ← EvictionQueue.lookup_without t'.queue hne, hqueue, EvictionQueue.lookup_without t.queue hne]

/-- With the key itself taken out as well, the listed keys are those before without it. -/
theorem keys_of_without (ht : t.Consistent) (ht' : t'.Consistent) (hpolicy : t'.policy = t.policy)
    (hqueue : t'.queue = t.queue.without key) : t'.keys = t.keys.filter (· ≠ key) := by
  rw [ht'.keys_eq, ht.keys_eq, hpolicy, hqueue, EvictionQueue.listedBy_without]

theorem contains_keys_iff (ht : t.Consistent) (key : κ) : t.contains key = true ↔ key ∈ t.keys := by
  rw [ht.contains_iff, t.keys_perm.mem_iff]

theorem victim?_eq_none_iff (ht : t.Consistent) :
    t.victim? = none ↔ ∀ key, t.contains key = false := by
  rw [ht.victim?_eq, List.head?_eq_none_iff, List.eq_nil_iff_forall_not_mem]
  constructor
  · intro hnone key
    rw [← Bool.not_eq_true, ht.contains_iff]
    exact hnone key
  · intro hnone key hmem
    have htracked := ht.contains_iff.mpr hmem
    rw [hnone key] at htracked
    exact Bool.false_ne_true htracked

/-- The victim leaves, and nothing else moves. -/
theorem evict_frame (ht : t.Consistent) :
    (t.evict).1 = t.victim? ∧ (t.evict).2.keys = t.keys.filter (some · ≠ t.victim?) ∧
      ∀ other, some other ≠ t.victim? → (t.evict).2.frequency? other = t.frequency? other := by
  rcases ht.evict with ⟨hkey, hconsistent, hpolicy, hqueue⟩
  refine ⟨hkey.trans ht.victim?_eq.symm, ?_⟩
  rw [ht.victim?_eq]
  cases hq : t.queue with
  | nil =>
    -- nothing is tracked, and nothing changes
    have hsame : (t.evict).2.queue = t.queue := by rw [hqueue, hq, List.tail_nil]
    constructor
    · rw [hconsistent.keys_eq, ht.keys_eq, hpolicy, hsame]
      exact (List.filter_eq_self.mpr (by simp [EvictionQueue.keys])).symm
    · intro other _
      rw [hconsistent.frequency?_eq, ht.frequency?_eq, hpolicy, hsame]
  | cons p queue =>
    have hnodup := ht.keys_nodup
    rw [hq] at hnodup
    have hwithout : (t.evict).2.queue = t.queue.without p.1 := by
      rw [hqueue, hq, List.tail_cons, EvictionQueue.without_head hnodup]
    have hvictim : (EvictionQueue.keys (p :: queue)).head? = some p.1 := rfl
    rw [hvictim]
    simp only [ne_eq, Option.some.injEq]
    constructor
    · exact ht.keys_of_without hconsistent hpolicy hwithout
    · intro other hne
      have hagree : (t.evict).2.queue.without p.1 = t.queue.without p.1 := by
        rw [hwithout, EvictionQueue.without_without_self]
      exact (ht.sameApart hconsistent hpolicy hagree).frequency?_eq other hne

/-- The key stays tracked or untracked, and nothing else moves. -/
theorem access_frame (ht : t.Consistent) (key : κ) :
    (t.access key).contains key = t.contains key ∧ tracking.SameApart key t (t.access key) := by
  rcases ht.access key with ⟨hconsistent, hpolicy, hqueue⟩
  constructor
  · have hperm := EvictionQueue.keys_access_perm t.policy ht.keys_nodup key
    rw [Bool.eq_iff_iff, hconsistent.contains_iff, ht.contains_iff, hqueue, hperm.mem_iff]
  · apply ht.sameApart hconsistent hpolicy
    rw [hqueue, EvictionQueue.without_access_self]

/-- A key that is tracked already is accessed, and any other one is placed: it is tracked then, and
nothing else moves. -/
theorem insert_frame (ht : t.Consistent) (key : κ) :
    (t.insert key).contains key = true ∧ tracking.SameApart key t (t.insert key) := by
  by_cases hmem : key ∈ t.queue.keys
  · rcases ht.access_frame key with ⟨htracked, hsame⟩
    rw [ht.insert_of_mem hmem, htracked]
    exact ⟨ht.contains_iff.mpr hmem, hsame⟩
  · rcases ht.insert hmem with ⟨hconsistent, hpolicy, hqueue⟩
    constructor
    · rw [hconsistent.contains_iff, hqueue]
      exact (EvictionQueue.keys_place_perm _ _ _).mem_iff.mpr List.mem_cons_self
    · apply ht.sameApart hconsistent hpolicy
      rw [hqueue, EvictionQueue.insert, EvictionQueue.without_place_self]

theorem framed (ht : t.Consistent) : tracking.Framed t := by
  rcases ht.evict_frame with ⟨hvictim, hkeys, hcounts⟩
  constructor
  · exact ht.contains_keys_iff
  · exact ht.victim?_eq_none_iff
  · exact hvictim
  · exact hkeys
  · exact hcounts
  · intro key
    show (t.remove key).1 = t.contains key
    rw [(ht.remove key).1, Bool.eq_iff_iff, decide_eq_true_iff, ht.contains_iff]
  · intro key
    rcases ht.remove key with ⟨-, hconsistent, hpolicy, hqueue⟩
    exact ht.keys_of_without hconsistent hpolicy hqueue
  · intro key
    rcases ht.remove key with ⟨-, hconsistent, hpolicy, hqueue⟩
    apply ht.sameApart hconsistent hpolicy
    rw [hqueue, EvictionQueue.without_without_self]
  · intro key
    exact (ht.access_frame key).1
  · intro key
    exact (ht.access_frame key).2
  · intro key
    exact (ht.insert_frame key).1
  · intro key
    exact (ht.insert_frame key).2

end Consistent

/-- However a tracker is used from its beginning, an eviction answers the victim that was shown,
which there is unless no key is tracked, and a removal answers whether its key was tracked; both
take just that key out of the order. An access tracks no key that was not tracked, and an insertion
tracks its key; both, of a tracked key or of another one, leave the relative order of all other
keys. None of the four changes the access count of another key. This holds of each of the three
orders on its own and of their sum under each policy. -/
theorem steps_framed (uses : List (Step κ)) :
    Recency.tracking.Framed (Recency.tracking.steps (.empty : Recency κ) uses) ∧
      Arrival.tracking.Framed (Arrival.tracking.steps (.empty : Arrival κ) uses) ∧
      Frequency.tracking.Framed (Frequency.tracking.steps (.empty : Frequency κ) uses) ∧
      ∀ policy, tracking.Framed (tracking.steps (new policy : Tracker κ) uses) := by
  have hsum : ∀ policy, tracking.Framed (tracking.steps (new policy : Tracker κ) uses) := by
    intro policy
    rw [tracking_steps]
    exact ((consistent_new policy).steps uses).1.framed
  refine ⟨embeds_lru.framed ?_, embeds_fifo.framed ?_, embeds_lfu.framed ?_, hsum⟩
  · rw [← embeds_lru.steps]
    exact hsum .lru
  · rw [← embeds_fifo.steps]
    exact hsum .fifo
  · rw [← embeds_lfu.steps]
    exact hsum .lfu

end Tracker

end

end CacheLab
