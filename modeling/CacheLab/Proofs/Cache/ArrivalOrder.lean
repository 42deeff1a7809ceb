import CacheLab.Proofs.Cache.ArrivalQueue

/-!
# CacheLab.Proofs.Cache.ArrivalOrder — first in, first out

A history of a cache is told by the numbers of its calls. Call `n` *enters* a
key if it puts a value under the key while it is absent, and it *pushes out* a
key if it answers an entry of it as the victim of an insertion or of a `pop`.
`Stays key a b` says that the entry which call `a` entered is there until
call `b`.

Under `fifo` the tracker lists the keys in the order in which their entries
were entered (`listed_in_order`), since what a call leaves in place keeps its
order and what it adds comes last. The pushed-out entry is the first one, hence
`fifo_run_eq`: a cache under `fifo` answers every history as the plain queue
does, and its entries are pushed out in the order in which they were entered.
-/

namespace CacheLab

/-- The key that a call pushes out, as its answer tells: the entry that `pop`
answers, or the one that `put` answers under another key than its own. -/
def Call.pushedOut? {κ ν : Type} [DecidableEq κ] : Call κ ν → Answer κ ν → Option κ
  | .pop, .entry entry => entry.map (·.1)
  | .put key _, .entry entry => (entry.map (·.1)).filter (· ≠ key)
  | _, _ => none

namespace ArrivalQueue

variable {κ ν : Type} [DecidableEq κ] {q : ArrivalQueue κ ν} {capacity : Nat} {call : Call κ ν}
  {key : κ}

/-- What a call keeps stays in order, and behind it comes at most one new key. -/
theorem keys_perform (capacity : Nat) (q : ArrivalQueue κ ν) (call : Call κ ν) :
    ∃ (kept : List κ) (joined : Option κ),
      (q.perform capacity call).2.keys = kept ++ joined.toList ∧ kept.Sublist q.keys ∧
        ∀ key ∈ joined, key ∉ q.keys ∧ ∃ value, call = .put key value := by
  -- most calls add nothing
  have keeps : ∀ ks : List κ, (q.perform capacity call).2.keys = ks → ks.Sublist q.keys →
      ∃ (kept : List κ) (joined : Option κ),
        (q.perform capacity call).2.keys = kept ++ joined.toList ∧ kept.Sublist q.keys ∧
          ∀ key ∈ joined, key ∉ q.keys ∧ ∃ value, call = .put key value := by
    intro ks hks hsublist
    refine ⟨ks, none, ?_, hsublist, by simp⟩
    rw [hks, Option.toList_none, List.append_nil]
  cases call with
  | put key value =>
    cases hlookup : q.lookup key with
    | some old =>
      refine keeps q.keys ?_ (List.Sublist.refl _)
      show (q.put capacity key value).2.keys = q.keys
      rw [put_of_some hlookup]
      exact keys_change q key fun _ => value
    | none =>
      have hfresh : key ∉ q.keys := Pairs.lookup_eq_none_iff_notMem.mp hlookup
      have hjoined : ∀ k ∈ some key, k ∉ q.keys ∧ ∃ v, Call.put key value = .put k v := by
        intro k hk
        obtain rfl : key = k := Option.some.inj hk
        exact ⟨hfresh, value, rfl⟩
      have hput : (q.put capacity key value).2.keys =
          (if q.length = capacity then q.keys.tail else q.keys) ++ [key] := by
        rw [put_of_none hlookup]
        split <;> simp [keys]
      refine ⟨_, some key, hput, ?_, hjoined⟩
      split
      · exact List.tail_sublist _
      · exact List.Sublist.refl _
  | modify key f => exact keeps q.keys (keys_change q key f) (List.Sublist.refl _)
  | remove key => exact keeps _ (keys_without q key) List.filter_sublist
  | erase key => exact keeps _ (keys_without q key) List.filter_sublist
  | pop => exact keeps q.keys.tail List.map_tail (List.tail_sublist _)
  | clear => exact keeps [] rfl (List.nil_sublist _)
  | get key => exact keeps q.keys rfl (List.Sublist.refl _)
  | contains key => exact keeps q.keys rfl (List.Sublist.refl _)
  | peek key => exact keeps q.keys rfl (List.Sublist.refl _)
  | victim => exact keeps q.keys rfl (List.Sublist.refl _)
  | frequency key => exact keeps q.keys rfl (List.Sublist.refl _)

/-- The key that is pushed out was the first one, and is gone. -/
theorem pushedOut_perform (hnodup : q.keys.Nodup)
    (hout : call.pushedOut? (q.perform capacity call).1 = some key) :
    q.keys.head? = some key ∧ key ∉ (q.perform capacity call).2.keys := by
  cases call with
  | pop =>
    cases q with
    | nil => cases hout
    | cons p q =>
      obtain rfl : p.1 = key := Option.some.inj hout
      exact ⟨rfl, (List.nodup_cons.mp hnodup).1⟩
  | put k value =>
    have hanswer : (((q.put capacity k value).1.map (·.1)).filter (· ≠ k)) = some key := hout
    show q.keys.head? = some key ∧ key ∉ (q.put capacity k value).2.keys
    cases hlookup : q.lookup k with
    | some old =>
      -- an update answers the key itself
      rw [put_of_some hlookup] at hanswer
      obtain ⟨heq, hne⟩ : k = key ∧ ¬ key = k := by simpa using hanswer
      exact absurd heq.symm hne
    | none =>
      rw [put_of_none hlookup] at hanswer ⊢
      by_cases hfull : q.length = capacity
      · rw [if_pos hfull] at hanswer ⊢
        cases q with
        | nil => cases hanswer
        | cons p q =>
          obtain ⟨rfl, hne⟩ : p.1 = key ∧ ¬ key = k := by simpa using hanswer
          have hfresh : p.1 ∉ keys q := (List.nodup_cons.mp hnodup).1
          refine ⟨rfl, ?_⟩
          show p.1 ∉ keys (q ++ [(k, value)])
          rw [keys, List.map_append, List.map_singleton, List.mem_append, List.mem_singleton]
          exact not_or.mpr ⟨hfresh, hne⟩
      · rw [if_neg hfull] at hanswer
        cases hanswer
  | _ => cases hout

end ArrivalQueue

namespace Cache

variable {κ ν : Type} [DecidableEq κ] [Hashable κ]

/-! ## Histories -/

/-- The cache in front of call `n`. -/
def before (c : Cache κ ν) (calls : List (Call κ ν)) (n : Nat) : Cache κ ν :=
  (c.run (calls.take n)).2

/-- Call `n` puts a value under `key` while it is absent. -/
def EntersAt (c : Cache κ ν) (calls : List (Call κ ν)) (key : κ) (n : Nat) : Prop :=
  (c.before calls n).contains key = false ∧ ∃ value, calls[n]? = some (.put key value)

/-- Call `n` pushes `key` out. -/
def LeavesAt (c : Cache κ ν) (calls : List (Call κ ν)) (key : κ) (n : Nat) : Prop :=
  ∃ call, calls[n]? = some call ∧
    call.pushedOut? ((c.before calls n).perform call).1 = some key

/-- The entry that call `a` enters under `key` is there until call `b`. -/
structure Stays (c : Cache κ ν) (calls : List (Call κ ν)) (key : κ) (a b : Nat) : Prop where
  enters : c.EntersAt calls key a
  lt : a < b
  present : ∀ n, a < n → n ≤ b → (c.before calls n).contains key = true

variable {c : Cache κ ν} {calls : List (Call κ ν)} {call : Call κ ν} {key : κ} {a a' b n : Nat}

theorem run_append (c : Cache κ ν) (calls later : List (Call κ ν)) :
    (c.run (calls ++ later)).2 = ((c.run calls).2.run later).2 := by
  induction calls generalizing c with
  | nil => rfl
  | cons call calls ih => exact ih (c.perform call).2

theorem before_succ (c : Cache κ ν) (hcall : calls[n]? = some call) :
    c.before calls (n + 1) = ((c.before calls n).perform call).2 := by
  rw [before, List.take_add_one, hcall, run_append]
  rfl

/-- After the last call nothing changes. -/
theorem before_succ_of_none (c : Cache κ ν) (hnone : calls[n]? = none) :
    c.before calls (n + 1) = c.before calls n := by
  rw [before, List.take_add_one, hnone, Option.toList_none, List.append_nil, before]

namespace Stays

theorem restrict (hs : c.Stays calls key a b) (hlt : a < n) (hle : n ≤ b) :
    c.Stays calls key a n where
  enters := hs.enters
  lt := hlt
  present m hm hmn := hs.present m hm (Nat.le_trans hmn hle)

/-- A key that is present is not entered again, so the entry was entered by one call. -/
theorem unique (hs : c.Stays calls key a b) (hs' : c.Stays calls key a' b) : a = a' := by
  have not_later : ∀ {i j}, c.Stays calls key i b → c.Stays calls key j b → ¬ i < j := by
    intro i j hi hj hlt
    have hpresent := hi.present j hlt (Nat.le_of_lt hj.lt)
    rw [hj.enters.1] at hpresent
    cases hpresent
  have hle := Nat.not_lt.mp (not_later hs hs')
  have hge := Nat.not_lt.mp (not_later hs' hs)
  omega

end Stays

/-! ## Order under `fifo` -/

section

variable {config : Config}

/-- In front of each call the cache is some queue. -/
theorem Queues.before (hc : c.Queues config []) (calls : List (Call κ ν)) (n : Nat) :
    ∃ q, (c.before calls n).Queues config q :=
  ⟨_, (hc.run (calls.take n)).2⟩

theorem contains_before_iff (hc : c.Queues config []) (calls : List (Call κ ν)) (n : Nat)
    (key : κ) : (c.before calls n).contains key = true ↔ key ∈ (c.before calls n).tracker.keys := by
  rcases hc.before calls n with ⟨q, hq⟩
  rw [hq.contains_iff, hq.keys_eq]

/-- A call keeps listed keys in order, and the key that it enters comes last. -/
theorem keys_before_succ (hc : c.Queues config []) (calls : List (Call κ ν)) (n : Nat) :
    ∃ (kept : List κ) (joined : Option κ),
      (c.before calls (n + 1)).tracker.keys = kept ++ joined.toList ∧
        kept.Sublist (c.before calls n).tracker.keys ∧ ∀ key ∈ joined, c.EntersAt calls key n := by
  rcases hc.before calls n with ⟨q, hq⟩
  cases hcall : calls[n]? with
  | none =>
    refine ⟨(c.before calls n).tracker.keys, none, ?_, List.Sublist.refl _, by simp⟩
    rw [before_succ_of_none c hcall, Option.toList_none, List.append_nil]
  | some call =>
    rcases q.keys_perform config.capacity call with ⟨kept, joined, hkeys, hkept, hjoined⟩
    refine ⟨kept, joined, ?_, ?_, ?_⟩
    · rw [before_succ c hcall, (hq.perform call).2.keys_eq, hkeys]
    · rw [hq.keys_eq]
      exact hkept
    · intro key hkey
      rcases hjoined key hkey with ⟨hfresh, value, rfl⟩
      refine ⟨?_, value, hcall⟩
      rw [← Bool.not_eq_true, hq.contains_iff]
      exact hfresh

/-- Each key that is there was entered by some call. -/
theorem exists_stays (hc : c.Queues config [])
    (hpresent : (c.before calls n).contains key = true) : ∃ a, c.Stays calls key a n := by
  rw [contains_before_iff hc] at hpresent
  induction n with
  | zero =>
    -- nothing is there in front of the first call
    have hnil : (c.before calls 0).tracker.keys = [] := hc.keys_eq
    rw [hnil] at hpresent
    exact absurd hpresent List.not_mem_nil
  | succ n ih =>
    have hnow := (contains_before_iff hc calls (n + 1) key).mpr hpresent
    rcases keys_before_succ hc calls n with ⟨kept, joined, hkeys, hkept, hjoined⟩
    rw [hkeys, List.mem_append, Option.mem_toList] at hpresent
    rcases hpresent with hold | hnew
    · -- it was there before this call
      rcases ih (hkept.mem hold) with ⟨a, hs⟩
      refine ⟨a, hs.enters, Nat.lt_succ_of_lt hs.lt, ?_⟩
      intro m hm hle
      rcases Nat.lt_or_eq_of_le hle with hlt | rfl
      · exact hs.present m hm (Nat.le_of_lt_succ hlt)
      · exact hnow
    · -- this call enters it
      refine ⟨n, hjoined key hnew, Nat.lt_succ_self n, ?_⟩
      intro m hm hle
      obtain rfl : m = n + 1 := Nat.le_antisymm hle hm
      exact hnow

/-- The tracker lists the keys in the order in which they were entered. -/
theorem listed_in_order (hc : c.Queues config []) (calls : List (Call κ ν)) (n : Nat) :
    (c.before calls n).tracker.keys.Pairwise fun key key' =>
      ∀ a a', c.Stays calls key a n → c.Stays calls key' a' n → a < a' := by
  induction n with
  | zero =>
    have hnil : (c.before calls 0).tracker.keys = [] := hc.keys_eq
    rw [hnil]
    exact List.Pairwise.nil
  | succ n ih =>
    rcases keys_before_succ hc calls n with ⟨kept, joined, hkeys, hkept, hjoined⟩
    -- a kept key was there before call `n`, which did not enter it
    have earlier : ∀ key ∈ kept, ∀ a, c.Stays calls key a (n + 1) → c.Stays calls key a n := by
      intro key hkey a hs
      have hthere := (contains_before_iff hc calls n key).mpr (hkept.mem hkey)
      have hne : a ≠ n := by
        rintro rfl
        rw [hs.enters.1] at hthere
        cases hthere
      have hlt := hs.lt
      exact hs.restrict (by omega) (Nat.le_succ n)
    rw [hkeys, List.pairwise_append]
    refine ⟨?_, ?_, ?_⟩
    · apply (ih.sublist hkept).imp_of_mem
      intro key key' hkey hkey' horder a a' hs hs'
      exact horder a a' (earlier key hkey a hs) (earlier key' hkey' a' hs')
    · cases joined with
      | none => exact List.Pairwise.nil
      | some key => exact List.pairwise_singleton _ _
    · -- the new key was entered by call `n`, after all others
      intro key hkey key' hkey' a a' hs hs'
      have hlt := (earlier key hkey a hs).lt
      have hnew : c.Stays calls key' n (n + 1) := by
        refine ⟨hjoined key' (Option.mem_toList.mp hkey'), Nat.lt_succ_self n, ?_⟩
        intro m hm hle
        exact hs'.present m (by have := hs'.lt; omega) hle
      rwa [hs'.unique hnew]

/-- The key that leaves is the first listed one, and is gone after the call. -/
theorem LeavesAt.first (hc : c.Queues config []) (hl : c.LeavesAt calls key n) :
    (c.before calls n).tracker.keys.head? = some key ∧
      (c.before calls (n + 1)).contains key = false := by
  rcases hl with ⟨call, hcall, hout⟩
  rcases hc.before calls n with ⟨q, hq⟩
  rcases hq.perform call with ⟨hanswer, hnext⟩
  rw [hanswer] at hout
  rcases ArrivalQueue.pushedOut_perform hq.keys_nodup hout with ⟨hfirst, hgone⟩
  constructor
  · rw [hq.keys_eq, hfirst]
  · rw [before_succ c hcall, ← Bool.not_eq_true, hnext.contains_iff]
    exact hgone

/-- What leaves was entered before everything that is there later. -/
theorem LeavesAt.entered_first {key₁ key₂ : κ} {a₁ a₂ b₁ b₂ : Nat} (hc : c.Queues config [])
    (hl : c.LeavesAt calls key₁ b₁) (hs₁ : c.Stays calls key₁ a₁ b₁)
    (hs₂ : c.Stays calls key₂ a₂ b₂) (hlt : b₁ < b₂) : a₁ < a₂ := by
  rcases hl.first hc with ⟨hfirst, hgone⟩
  rcases Nat.lt_or_ge a₂ b₁ with hearly | hlate
  · have hthere := hs₂.restrict hearly (Nat.le_of_lt hlt)
    have horder := listed_in_order hc calls b₁
    have hmem := (contains_before_iff hc calls b₁ key₂).mp
      (hthere.present b₁ hearly (Nat.le_refl _))
    rcases List.head?_eq_some_iff.mp hfirst with ⟨rest, hkeys⟩
    rw [hkeys] at horder hmem
    rcases List.mem_cons.mp hmem with rfl | hbehind
    · -- the second entry is there after call `b₁`, the first is not
      have hafter := hs₂.present (b₁ + 1) (by omega) hlt
      rw [hgone] at hafter
      cases hafter
    · exact (List.pairwise_cons.mp horder).1 key₂ hbehind a₁ a₂ hs₁ hthere
  · exact Nat.lt_of_lt_of_le hs₁.lt hlate

end

/-- A cache under `fifo` answers every history of calls as the plain queue does.
Each entry that is pushed out had been entered by some call, and an entry that
is pushed out was entered before every entry that is there later, so entries are
pushed out in the order in which they were entered. -/
theorem fifo_run_eq (config : Config) (calls : List (Call κ ν)) :
    let c : Cache κ ν := new { config with policy := .fifo }
    (c.run calls).1 = (ArrivalQueue.run config.capacity [] calls).1 ∧
      (∀ key b, c.LeavesAt calls key b → ∃ a, c.Stays calls key a b) ∧
      ∀ key₁ key₂ a₁ a₂ b₁ b₂, c.LeavesAt calls key₁ b₁ → c.Stays calls key₁ a₁ b₁ →
        c.Stays calls key₂ a₂ b₂ → b₁ < b₂ → a₁ < a₂ := by
  intro c
  have hc : c.Queues { config with policy := .fifo } [] := Queues.new _ rfl
  refine ⟨(hc.run calls).1, ?_, ?_⟩
  · intro key b hl
    apply exists_stays hc
    rw [contains_before_iff hc]
    exact List.mem_of_head? (hl.first hc).1
  · intro key₁ key₂ a₁ a₂ b₁ b₂ hl hs₁ hs₂ hlt
    exact hl.entered_first hc hs₁ hs₂ hlt

/-- A cache for two entries, in which key 1 is updated, taken out and put again:
it has lost its place to key 2, which is evicted by call 5, and is popped by call 6. -/
theorem fifo_run_eq_reinsertion :
    let calls : List (Call Nat Nat) :=
      [.put 1 10, .put 2 20, .put 1 11, .remove 1, .put 1 12, .put 3 30, .pop]
    let c : Cache Nat Nat := new ⟨2, .fifo, by decide⟩
    (c.LeavesAt calls 2 5 ∧ c.Stays calls 2 1 5 ∧ c.LeavesAt calls 1 6 ∧ c.Stays calls 1 4 6) ∧
      1 < 4 ∧
      (c.run calls).1 =
        [.entry none, .entry none, .entry (some (1, 10)), .value (some 11), .entry none,
          .entry (some (2, 20)), .entry (some (1, 12))] := by
  intro calls c
  have hc : c.Queues ⟨2, .fifo, by decide⟩ [] := Queues.new _ rfl
  have hcontains : ∀ n key, (c.before calls n).contains key = true ↔
      key ∈ (ArrivalQueue.run 2 [] (calls.take n)).2.keys := fun n key =>
    (hc.run (calls.take n)).2.contains_iff key
  have habsent : ∀ n key, (c.before calls n).contains key = false ↔
      key ∉ (ArrivalQueue.run 2 [] (calls.take n)).2.keys := fun n key => by
    rw [← hcontains, Bool.not_eq_true]
  have hleaves : c.LeavesAt calls 2 5 ∧ c.LeavesAt calls 1 6 := by
    refine ⟨⟨.put 3 30, rfl, ?_⟩, ⟨.pop, rfl, ?_⟩⟩
    · exact congrArg _ ((hc.run (calls.take 5)).2.perform (.put 3 30)).1
    · exact congrArg _ ((hc.run (calls.take 6)).2.perform .pop).1
  have hstays : c.Stays calls 2 1 5 ∧ c.Stays calls 1 4 6 := by
    refine ⟨⟨⟨?_, 20, rfl⟩, by decide, ?_⟩, ⟨⟨?_, 12, rfl⟩, by decide, ?_⟩⟩
    · exact (habsent 1 2).mpr (by decide)
    · intro n hlt hle
      rw [hcontains]
      have hall : ∀ n ≤ 5, 1 < n → 2 ∈ (ArrivalQueue.run 2 [] (calls.take n)).2.keys := by decide
      exact hall n hle hlt
    · exact (habsent 4 1).mpr (by decide)
    · intro n hlt hle
      rw [hcontains]
      have hall : ∀ n ≤ 6, 4 < n → 1 ∈ (ArrivalQueue.run 2 [] (calls.take n)).2.keys := by decide
      exact hall n hle hlt
  obtain ⟨hanswers, -, horder⟩ := fifo_run_eq ⟨2, .fifo, by decide⟩ calls
  exact ⟨⟨hleaves.1, hstays.1, hleaves.2, hstays.2⟩,
    horder 2 1 1 4 5 6 hleaves.1 hstays.1 hstays.2 (by decide), hanswers.trans (by decide)⟩

end Cache

end CacheLab
