import Std.Tactic.Do
import CacheLab.Word

/-!
# CacheLab.Proofs.Fallible — steps that may fail

Facts about computations in `Except`: when two steps after another come to a result (`bind_ok`,
`of_bind_eq_ok`), what a list of results comes to (`mapM_eq_ok_iff`, `mapM_eq_error_iff`), and when
the sum of two words is a word (`addWords_ok_iff`). In other monads a computation comes to an end
if a triple says so: from two such triples follows one (`ends_of_both`), a failure that is ruled
out leaves the end (`ends_of_never`), and without surroundings the end is a result
(`result_of_ends`).
-/

namespace CacheLab

open Std.Do

set_option mvcgen.warning false

section

variable {α β ε : Type}

/-- A result comes out of two steps if it comes out of the second one whatever the first gives. -/
theorem bind_ok {x : Except ε α} {f : α → Except ε β} (hx : ∃ a, x = .ok a)
    (hf : ∀ a, ∃ b, f a = .ok b) : ∃ b, x >>= f = .ok b := by
  rcases hx with ⟨a, rfl⟩
  exact hf a

/-- If the second step does not depend on the first, they come to a result if both do. -/
theorem bind_ok_iff {x : Except ε α} {f : α → Except ε β} {p : Prop}
    (hf : ∀ a, (∃ b, f a = .ok b) ↔ p) : (∃ b, x >>= f = .ok b) ↔ (∃ a, x = .ok a) ∧ p := by
  cases x with
  | error e => exact iff_of_false nofun fun h => nomatch h.1
  | ok a =>
    have ha : ∃ a', (Except.ok a : Except ε α) = .ok a' := ⟨a, rfl⟩
    exact (hf a).trans (and_iff_right ha).symm

/-- If two steps come to a result, the first of them does. -/
theorem of_bind_eq_ok {x : Except ε α} {f : α → Except ε β} {b : β}
    (hbind : x >>= f = .ok b) : ∃ a, x = .ok a ∧ f a = .ok b := by
  cases x with
  | error e => cases hbind
  | ok a => exact ⟨a, rfl, hbind⟩

/-- A list of results comes out if each of them does. -/
theorem mapM_ok {f : α → Except ε β} {l : List α}
    (hall : ∀ a ∈ l, ∃ b, f a = .ok b) : ∃ bs, l.mapM f = .ok bs := by
  induction l with
  | nil => exact ⟨[], rfl⟩
  | cons a l ih =>
    rcases List.forall_mem_cons.mp hall with ⟨hfirst, hrest⟩
    rw [List.mapM_cons]
    exact bind_ok hfirst fun b => bind_ok (ih hrest) fun bs => ⟨b :: bs, rfl⟩

/-- The results of a list are those of its members. -/
theorem mapM_eq_ok_iff {f : α → Except ε β} {l : List α} {bs : List β} :
    l.mapM f = .ok bs ↔ l.map f = bs.map .ok := by
  induction l generalizing bs with
  | nil =>
    constructor
    · intro hall
      cases hall
      rfl
    · intro hmap
      cases bs with
      | nil => rfl
      | cons => cases hmap
  | cons a l ih =>
    constructor
    · intro hall
      rw [List.mapM_cons] at hall
      rcases of_bind_eq_ok hall with ⟨b, hfirst, hall⟩
      rcases of_bind_eq_ok hall with ⟨rest, hrest, hpure⟩
      cases hpure
      rw [List.map_cons, List.map_cons, hfirst, ih.mp hrest]
    · intro hmap
      cases bs with
      | nil => cases hmap
      | cons b rest =>
        rw [List.map_cons, List.map_cons, List.cons.injEq] at hmap
        rw [List.mapM_cons, hmap.1, ih.mpr hmap.2]
        rfl

/-- If a list of results comes out, each of them does. -/
theorem ok_of_mapM_eq_ok {f : α → Except ε β} {l : List α} {bs : List β}
    (hall : l.mapM f = .ok bs) {a : α} (ha : a ∈ l) : ∃ b, f a = .ok b := by
  have hmem : f a ∈ bs.map .ok := mapM_eq_ok_iff.mp hall ▸ List.mem_map_of_mem ha
  rcases List.mem_map.mp hmem with ⟨b, _, hb⟩
  exact ⟨b, hb.symm⟩

/-- What comes out of a list is the result of one of its members. -/
theorem mem_of_mapM_eq_ok {f : α → Except ε β} {l : List α} {bs : List β}
    (hall : l.mapM f = .ok bs) {b : β} (hb : b ∈ bs) : ∃ a ∈ l, f a = .ok b := by
  have hmem : .ok b ∈ l.map f := mapM_eq_ok_iff.mp hall ▸ List.mem_map_of_mem hb
  exact List.mem_map.mp hmem

/-- A list of results fails with the error of the first member that fails. -/
theorem mapM_eq_error_iff {f : α → Except ε β} {l : List α} {e : ε} :
    l.mapM f = .error e ↔ ∃ before a behind, l = before ++ a :: behind ∧
      (∀ other ∈ before, ∃ b, f other = .ok b) ∧ f a = .error e := by
  induction l with
  | nil =>
    constructor
    · exact nofun
    · rintro ⟨before, a, behind, hl, _⟩
      cases before <;> cases hl
  | cons first l ih =>
    rw [List.mapM_cons]
    cases hfirst : f first with
    | error e' =>
      constructor
      · intro herror
        cases herror
        exact ⟨[], first, l, rfl, nofun, hfirst⟩
      · rintro ⟨before, a, behind, hl, hbefore, ha⟩
        cases before with
        | nil =>
          cases hl
          cases hfirst.symm.trans ha
          rfl
        | cons other before =>
          cases hl
          rcases hbefore first List.mem_cons_self with ⟨b, hb⟩
          cases hfirst.symm.trans hb
    | ok b =>
      have hrest : (Except.ok b >>= fun b => do return b :: (← l.mapM f)) = .error e ↔
          l.mapM f = .error e := by
        cases l.mapM f with
        | error e' => exact Iff.rfl
        | ok rest => exact ⟨nofun, nofun⟩
      rw [hrest, ih]
      constructor
      · rintro ⟨before, a, behind, rfl, hbefore, ha⟩
        exact ⟨first :: before, a, behind, rfl,
          List.forall_mem_cons.mpr ⟨⟨b, hfirst⟩, hbefore⟩, ha⟩
      · rintro ⟨before, a, behind, hl, hbefore, ha⟩
        cases before with
        | nil =>
          cases hl
          cases hfirst.symm.trans ha
        | cons other before =>
          cases hl
          exact ⟨before, a, behind, rfl, (List.forall_mem_cons.mp hbefore).2, ha⟩

end

/-! ## Sums of words -/

theorem addWords_eq {a b : Nat} (hsum : a + b < wordCount) : addWords a b = .ok (a + b) :=
  if_pos hsum

theorem addWords_ok_iff {a b : Nat} : (∃ n, addWords a b = .ok n) ↔ a + b < wordCount := by
  rw [addWords]
  by_cases hsum : a + b < wordCount
  · rw [if_pos hsum]
    exact iff_of_true ⟨_, rfl⟩ hsum
  · rw [if_neg hsum]
    exact iff_of_false nofun hsum

/-! ## Computations that come to an end -/

section

variable {m : Type → Type} {ps : PostShape} [Monad m] [WPMonad m ps] {α ε : Type}
  {Q Q' R : α → Prop}

/-- What follows from two things that hold of every result holds of it as well. -/
theorem ends_of_both {x : m α} (hx : ⦃⌜True⌝⦄ x ⦃⇓ r => ⌜Q r⌝⦄)
    (hx' : ⦃⌜True⌝⦄ x ⦃⇓ r => ⌜Q' r⌝⦄) (himp : ∀ r, Q r → Q' r → R r) :
    ⦃⌜True⌝⦄ x ⦃⇓ r => ⌜R r⌝⦄ := by
  have hboth := Triple.and x hx hx'
  mvcgen [hboth]
  · exact SPred.pure_and.mp.trans (SPred.pure_mono fun h => himp _ h.1 h.2)
  · exact ExceptConds.and_elim_left _ _

/-- What holds of a step holds of it among steps that may fail. -/
theorem lift_ends {x : m α} {before : Assertion ps} {after : α → Assertion ps}
    (hx : ⦃before⦄ x ⦃⇓ r => after r⦄) :
    ⦃before⦄ (liftM x : ExceptT ε m α) ⦃⇓ r => after r⦄ := by
  mvcgen [hx]

/-- A computation that never fails comes to an end. -/
theorem ends_of_never {x : ExceptT ε m α} {E : ε → Prop}
    (hx : ⦃⌜True⌝⦄ x ⦃(fun r => ⌜Q r⌝, fun e => ⌜E e⌝, ExceptConds.false)⦄)
    (hnever : ∀ e, ¬ E e) : ⦃⌜True⌝⦄ x ⦃⇓ r => ⌜Q r⌝⦄ := by
  mvcgen [hx]
  · exact .rfl
  · exact SPred.pure_mono (hnever _)

/-- A computation without surroundings that comes to an end has a result. -/
theorem result_of_ends {x : ExceptT ε Id α} (hx : ⦃⌜True⌝⦄ x ⦃⇓ r => ⌜Q r⌝⦄) :
    ∃ r, x.run = .ok r ∧ Q r := by
  have hwp := hx trivial
  cases hrun : x.run with
  | ok r =>
    obtain rfl : x = pure r := hrun
    exact ⟨r, rfl, hwp⟩
  | error error =>
    obtain rfl : x = throw error := hrun
    exact absurd hwp id

/-- One that comes to no end fails. -/
theorem error_of_fails {x : ExceptT ε Id α} {E : ε → Prop}
    (hx : ⦃⌜True⌝⦄ x ⦃(fun _ => ⌜False⌝, fun e => ⌜E e⌝, ExceptConds.false)⦄) :
    ∃ e, x.run = .error e ∧ E e := by
  have hwp := hx trivial
  cases hrun : x.run with
  | ok r =>
    obtain rfl : x = pure r := hrun
    exact absurd hwp id
  | error error =>
    obtain rfl : x = throw error := hrun
    exact ⟨error, rfl, hwp⟩

end

end CacheLab
