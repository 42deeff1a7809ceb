import CacheLab.Proofs.Cache.Counting
import CacheLab.Proofs.Cache.RecencyList

/-!
# CacheLab.Proofs.Cache.Inclusion — a larger cache under `lru` holds what a smaller one holds

Two caches under `lru` of capacities `a ≤ b` are put through the same calls. A
lookup may hit in the larger one only, an insertion may evict from either one or
from both, and removals leave one of them full and the other not. What carries
through all of this is `RecencyList.Within a b small large`:

* the list of the smaller cache is a part of the list of the larger one, in the
  same order and with the same values;
* the lengths differ by at most `b - a`. So when the larger cache is full, the
  smaller one is full as well, and both lose their last pair together.

`Within.perform` is the step for every call but `pop`, and `lru_run_inclusion`
what follows for whole histories. A `pop` takes the last pair of each list, and
these need not be the same.
-/

namespace CacheLab

/-- Whether a call takes the victim out. -/
def Call.isPop {κ ν : Type} : Call κ ν → Bool
  | .pop => true
  | _ => false

namespace RecencyList

variable {κ ν : Type} {small large : RecencyList κ ν} {a b : Nat}

/-- The smaller list is a part of the larger one, and their lengths differ by no
more than the capacities `a` and `b` do. -/
structure Within (a b : Nat) (small large : RecencyList κ ν) : Prop where
  sublist : small.Sublist large
  gap_le : large.length + a ≤ small.length + b

theorem dropLast_sublist_dropLast (hsublist : small.Sublist large) :
    small.dropLast.Sublist large.dropLast := by
  have htail := hsublist.reverse.tail
  rw [List.tail_reverse, List.tail_reverse] at htail
  exact List.reverse_sublist.mp htail

namespace Within

variable [DecidableEq κ] {key : κ} {value old : ν}

/-- A key of the smaller list has the same value in the larger one. -/
theorem lookup_eq (hw : Within a b small large) (hlarge : large.Fits b)
    (hlookup : small.lookup key = some value) : large.lookup key = some value := by
  rw [Pairs.lookup_eq_some_iff_mem hlarge.nodup]
  exact hw.sublist.mem (Pairs.mem_of_lookup_eq_some hlookup)

theorem drop (hw : Within a b small large) (hsmall : small.Fits a) (hlarge : large.Fits b)
    (key : κ) : Within a b (small.without key) (large.without key) where
  sublist := hw.sublist.filter _
  gap_le := by
    have hgap := hw.gap_le
    cases hlookup : small.lookup key with
    | some value =>
      -- both lose a pair
      have hshort := hsmall.length_without hlookup
      have hlong := hlarge.length_without (hw.lookup_eq hlarge hlookup)
      omega
    | none =>
      have hlong : (large.without key).length ≤ large.length := List.length_filter_le _ _
      rw [without_of_none hlookup]
      omega

/-- A key moves to the front of both lists. -/
theorem refresh (hw : Within a b small large) (hsmall : small.Fits a) (hlarge : large.Fits b)
    (key : κ) (value : ν) :
    Within a b ((key, value) :: small.without key) ((key, value) :: large.without key) where
  sublist := (hw.drop hsmall hlarge key).sublist.cons_cons _
  gap_le := by
    have hgap := (hw.drop hsmall hlarge key).gap_le
    rw [List.length_cons, List.length_cons]
    omega

/-- A key that the smaller list does not have moves to the front of the larger one. -/
theorem refresh_large (hw : Within a b small large) (hlarge : large.Fits b)
    (hnone : small.lookup key = none) (hsome : large.lookup key = some old) (value : ν) :
    Within a b small ((key, value) :: large.without key) where
  sublist := by
    have hsublist : (small.without key).Sublist (large.without key) := hw.sublist.filter _
    rw [without_of_none hnone] at hsublist
    exact hsublist.cons _
  gap_le := by
    rw [List.length_cons, hlarge.length_without hsome]
    exact hw.gap_le

theorem modify (hw : Within a b small large) (hsmall : small.Fits a) (hlarge : large.Fits b)
    (key : κ) (f : ν → ν) : Within a b (small.modify key f).2 (large.modify key f).2 := by
  cases hlookup : small.lookup key with
  | some value =>
    rw [modify_of_some hlookup, modify_of_some (hw.lookup_eq hlarge hlookup)]
    exact hw.refresh hsmall hlarge key (f value)
  | none =>
    rw [modify_of_none hlookup]
    cases hlookup' : large.lookup key with
    | some value =>
      rw [modify_of_some hlookup']
      exact hw.refresh_large hlarge hlookup hlookup' (f value)
    | none =>
      rw [modify_of_none hlookup']
      exact hw

omit [DecidableEq κ] in
/-- A pair that is new in both lists goes to the front of both. -/
theorem insert (hw : Within a b small large) (hpos : 0 < a) (hle : a ≤ b) (hsmall : small.Fits a)
    (hlarge : large.Fits b) (p : κ × ν) :
    Within a b (p :: if small.length = a then small.dropLast else small)
      (p :: if large.length = b then large.dropLast else large) := by
  have hgap := hw.gap_le
  have hshort := hsmall.length_le
  have hlong := hlarge.length_le
  by_cases hfull : small.length = a
  · rw [if_pos hfull]
    have hdrop : small.dropLast.length = small.length - 1 := List.length_dropLast
    by_cases hfull' : large.length = b
    · -- both lose their last pair
      have hdrop' : large.dropLast.length = large.length - 1 := List.length_dropLast
      rw [if_pos hfull']
      refine ⟨(dropLast_sublist_dropLast hw.sublist).cons_cons p, ?_⟩
      rw [List.length_cons, List.length_cons]
      omega
    · -- the larger list has room, and the lengths part by one
      rw [if_neg hfull']
      refine ⟨((List.dropLast_sublist _).trans hw.sublist).cons_cons p, ?_⟩
      rw [List.length_cons, List.length_cons]
      omega
  · -- the smaller list has room, so the larger one has room too
    have hroom : ¬ large.length = b := by omega
    rw [if_neg hfull, if_neg hroom]
    refine ⟨hw.sublist.cons_cons p, ?_⟩
    rw [List.length_cons, List.length_cons]
    omega

/-- A pair that is new in the smaller list goes to the front of both. -/
theorem insert_small (hw : Within a b small large) (hpos : 0 < a) (hlarge : large.Fits b)
    (hnone : small.lookup key = none) (hsome : large.lookup key = some old) (value : ν) :
    Within a b ((key, value) :: if small.length = a then small.dropLast else small)
      ((key, value) :: large.without key) := by
  have hgap := hw.gap_le
  have hlong := hlarge.length_without hsome
  have hsublist : (small.without key).Sublist (large.without key) := hw.sublist.filter _
  rw [without_of_none hnone] at hsublist
  split
  · have hdrop : small.dropLast.length = small.length - 1 := List.length_dropLast
    refine ⟨((List.dropLast_sublist _).trans hsublist).cons_cons _, ?_⟩
    rw [List.length_cons, List.length_cons]
    omega
  · refine ⟨hsublist.cons_cons _, ?_⟩
    rw [List.length_cons, List.length_cons]
    omega

theorem put (hw : Within a b small large) (hpos : 0 < a) (hle : a ≤ b) (hsmall : small.Fits a)
    (hlarge : large.Fits b) (key : κ) (value : ν) :
    Within a b (small.put a key value).2 (large.put b key value).2 := by
  cases hlookup : small.lookup key with
  | some old =>
    rw [put_of_some hlookup, put_of_some (hw.lookup_eq hlarge hlookup)]
    exact hw.refresh hsmall hlarge key value
  | none =>
    rw [put_of_none hlookup]
    cases hlookup' : large.lookup key with
    | some old =>
      rw [put_of_some hlookup']
      exact hw.insert_small hpos hlarge hlookup hlookup' value
    | none =>
      rw [put_of_none hlookup']
      exact hw.insert hpos hle hsmall hlarge (key, value)

/-- Each call but `pop` keeps the smaller list within the larger one. -/
theorem perform (hw : Within a b small large) (hpos : 0 < a) (hle : a ≤ b) (hsmall : small.Fits a)
    (hlarge : large.Fits b) {call : Call κ ν} (hpop : call.isPop = false) :
    Within a b (small.perform a call).2 (large.perform b call).2 := by
  cases call with
  | put key value => exact hw.put hpos hle hsmall hlarge key value
  | get key => exact hw.modify hsmall hlarge key id
  | modify key f => exact hw.modify hsmall hlarge key f
  | remove key => exact hw.drop hsmall hlarge key
  | erase key => exact hw.drop hsmall hlarge key
  | clear => exact ⟨List.Sublist.refl _, by simpa [RecencyList.perform] using hle⟩
  | pop => cases hpop
  | contains key => exact hw
  | peek key => exact hw
  | victim => exact hw
  | frequency key => exact hw

/-- What hits in the smaller list hits in the larger one. -/
theorem isHit (hw : Within a b small large) (hlarge : large.Fits b) {call : Call κ ν}
    (hhit : call.isHit (small.perform a call).1 = true) :
    call.isHit (large.perform b call).1 = true := by
  have found : ∀ key (f : ν → ν), (small.modify key f).1.isSome = true →
      (large.modify key f).1.isSome = true := by
    intro key f hsome
    rw [modify_fst] at hsome ⊢
    rcases Option.isSome_iff_exists.mp hsome with ⟨value, hvalue⟩
    rw [hw.lookup_eq hlarge hvalue]
    rfl
  cases call with
  | get key => exact found key id hhit
  | modify key f => exact found key f hhit
  | _ => cases hhit

end Within

end RecencyList

namespace Cache

variable {κ ν : Type} [DecidableEq κ] [Hashable κ] {c d : Cache κ ν} {small large : Config}
  {l l' : RecencyList κ ν}

/-- Calls keep the list of the smaller cache within that of the larger one, and
the smaller cache has no more hits. -/
theorem Holds.run_within (hc : c.Holds small l) (hd : d.Holds large l')
    (hle : small.capacity ≤ large.capacity)
    (hw : RecencyList.Within small.capacity large.capacity l l')
    (hhits : c.metrics.core.hits ≤ d.metrics.core.hits) (calls : List (Call κ ν))
    (hpop : ∀ call ∈ calls, call.isPop = false) :
    ∃ l l', (c.run calls).2.Holds small l ∧ (d.run calls).2.Holds large l' ∧
      RecencyList.Within small.capacity large.capacity l l' ∧
      (c.run calls).2.metrics.core.hits ≤ (d.run calls).2.metrics.core.hits := by
  induction calls generalizing c d l l' with
  | nil => exact ⟨l, l', hc, hd, hw, hhits⟩
  | cons call calls ih =>
    rcases List.forall_mem_cons.mp hpop with ⟨hfirst, hrest⟩
    rcases hc.perform call with ⟨hanswer, hc'⟩
    rcases hd.perform call with ⟨hanswer', hd'⟩
    have hw' := hw.perform small.capacity_pos hle hc.fits hd.fits hfirst
    apply ih hc' hd' hw' ?_ hrest
    -- a hit of the smaller cache is one of the larger cache
    rw [hits_perform, hits_perform, hanswer, hanswer']
    cases hhit : call.isHit (l.perform small.capacity call).1 with
    | false => exact Nat.le_trans hhits (Nat.le_add_right _ _)
    | true =>
      rw [hw.isHit hd.fits hhit]
      exact Nat.add_le_add_right hhits 1

/-- After any calls but `pop`, the smaller of two caches under `lru` lists its
keys as a part of what the larger one lists, with the same values, and has had no
more hits. -/
theorem lru_run_inclusion (small large : Config) (hle : small.capacity ≤ large.capacity)
    (calls : List (Call κ ν)) (hpop : ∀ call ∈ calls, call.isPop = false) :
    let c := ((new { small with policy := .lru } : Cache κ ν).run calls).2
    let d := ((new { large with policy := .lru } : Cache κ ν).run calls).2
    c.tracker.keys.Sublist d.tracker.keys ∧
      (∀ key value, c.peek? key = some value → d.peek? key = some value) ∧
      c.metrics.core.hits ≤ d.metrics.core.hits := by
  intro c d
  have hempty : RecencyList.Within small.capacity large.capacity ([] : RecencyList κ ν) [] :=
    ⟨List.Sublist.refl _, Nat.add_le_add_left hle 0⟩
  have hc : Holds (new { small with policy := .lru }) _ ([] : RecencyList κ ν) := Holds.new _ rfl
  have hd : Holds (new { large with policy := .lru }) _ ([] : RecencyList κ ν) := Holds.new _ rfl
  obtain ⟨l, l', hc, hd, hw, hhits⟩ := hc.run_within hd hle hempty (Nat.le_refl _) calls hpop
  refine ⟨?_, ?_, hhits⟩
  · rw [hc.keys_eq, hd.keys_eq]
    exact hw.sublist.map _
  · intro key value hvalue
    rw [hc.peek?_eq] at hvalue
    rw [hd.peek?_eq]
    exact hw.lookup_eq hd.fits hvalue

/-- Caches for two and for three entries. Key 1 leaves the smaller one when key 3
comes, so the lookup moves it to the front of the larger one only; then both
have room for key 4 where key 3 was. -/
theorem lru_run_inclusion_two_three :
    let calls : List (Call Nat Nat) :=
      [.put 1 10, .put 2 20, .put 3 30, .get 1, .remove 3, .modify 2 (· + 1), .put 4 40]
    let c := ((new ⟨2, .lru, by decide⟩ : Cache Nat Nat).run calls).2
    let d := ((new ⟨3, .lru, by decide⟩ : Cache Nat Nat).run calls).2
    (2 ≤ 3 ∧ ∀ call ∈ calls, call.isPop = false) ∧
      c.tracker.keys.Sublist d.tracker.keys ∧
      (∀ key value, c.peek? key = some value → d.peek? key = some value) ∧
      c.metrics.core.hits ≤ d.metrics.core.hits := by
  intro calls c d
  have hpop : ∀ call ∈ calls, call.isPop = false := by
    simp [calls, Call.isPop]
  exact ⟨⟨by decide, hpop⟩,
    lru_run_inclusion ⟨2, .lru, by decide⟩ ⟨3, .lru, by decide⟩ (by decide) calls hpop⟩

end Cache

end CacheLab
