import CacheLab.Proofs.ArenaList.Sequence

/-!
# CacheLab.Proofs.ArenaList.Cursor — a cursor reads its list exactly, and ends

A cursor follows the `next` links. It counts the values that are still to come, but it never looks
at this count, so whether it ends, and whether the count is right, rests on the links alone.

* `Cursor.Ahead` is the invariant: a run of pairs lies between the cursor and the end of the list,
  and the count is the length of this run.
* `Ahead.call` is the step lemma: one call answers the first of these pairs and passes it. From it
  come any number of calls (`Ahead.calls`), and all that a cursor can still give (`Ahead.delivers`).
* `iter_exact`: a cursor over a list that was edited in any way has read the first values, announces
  the number of the others, gives exactly these, and then nothing for good.
-/

namespace CacheLab.ArenaList

variable {α : Type}

/-! ## Asking a cursor -/

namespace Cursor

/-- Asks for the next value: the answer, and the cursor behind it. A cursor without an answer stays
where it is. -/
def call (c : Cursor α) : Option α × Cursor α :=
  match c.next? with
  | none => (none, c)
  | some (value, c) => (some value, c)

/-- Asks a number of times. -/
def calls (c : Cursor α) : Nat → List (Option α) × Cursor α
  | 0 => ([], c)
  | n + 1 =>
    let (answer, c) := c.call
    let (answers, c) := c.calls n
    (answer :: answers, c)

/-- The cursor has exactly `values` still to give. -/
structure Delivers (c : Cursor α) (values : List α) : Prop where
  /-- Any number of calls answer the values in order, and `none` for good behind the last. -/
  calls_eq : ∀ n, (c.calls n).1 = (List.range n).map (values[·]?)
  /-- Reading to the end gives the values. -/
  rest_eq : c.rest = values
  /-- Whenever there is an answer, the count goes down by one; it is never zero before. -/
  counted : ∀ n value c', (c.calls n).2.next? = some (value, c') →
    (c.calls n).2.remaining = c'.remaining + 1

/-- The first members of a list, read by their numbers: the head, then those of the tail. -/
theorem map_getElem?_range_succ (values : List α) (n : Nat) :
    (List.range (n + 1)).map (values[·]?) =
      values.head? :: (List.range n).map (values.tail[·]?) := by
  rw [List.range_succ_eq_map, List.map_cons, List.map_map, List.head?_eq_getElem?]
  congr 1
  apply List.map_congr_left
  intro i _
  exact List.getElem?_tail.symm

/-! ## What lies ahead of a cursor -/

/-- The pairs `es` lie between the cursor and the end of its list, and they are counted. -/
structure Ahead (c : Cursor α) (es : Sequence α) : Prop where
  segment : ∃ before, c.list.Segment before es none
  position_eq : c.position = firstHandle es none
  remaining_eq : c.remaining = es.length
  length_le : es.length ≤ c.list.slots.size

namespace Ahead

variable {c : Cursor α} {p : Handle × α} {es : Sequence α}

theorem next?_nil (hc : c.Ahead []) : c.next? = none := by
  rw [next?, hc.position_eq]
  rfl

theorem next?_cons (hc : c.Ahead (p :: es)) : ∃ c', c.next? = some (p.2, c') ∧ c'.Ahead es := by
  rcases hc.segment with ⟨before, hnode, hrest⟩
  have hremaining := hc.remaining_eq
  have hle := hc.length_le
  rw [List.length_cons] at hremaining hle
  refine ⟨{ c with position := firstHandle es none, remaining := c.remaining - 1 }, ?_, ?_⟩
  · rw [next?, hc.position_eq, firstHandle_cons, Option.bind_some, hnode]
  · constructor
    · exact ⟨some p.1, hrest⟩
    · rfl
    · -- the decrement is exact, since `p` was counted
      show c.remaining - 1 = es.length
      rw [hremaining, Nat.add_sub_cancel]
    · exact Nat.le_of_succ_le hle

theorem call (hc : c.Ahead es) : c.call.1 = es.head?.map (·.2) ∧ c.call.2.Ahead es.tail := by
  cases es with
  | nil =>
    rw [Cursor.call, hc.next?_nil]
    exact ⟨rfl, hc⟩
  | cons p es =>
    rcases hc.next?_cons with ⟨c', hnext, hrest⟩
    rw [Cursor.call, hnext]
    exact ⟨rfl, hrest⟩

/-- A value is taken only from a count that is not zero. -/
theorem remaining_next {value : α} {c' : Cursor α} (hc : c.Ahead es)
    (hnext : c.next? = some (value, c')) : c.remaining = c'.remaining + 1 := by
  cases es with
  | nil =>
    rw [hc.next?_nil] at hnext
    cases hnext
  | cons p es =>
    rcases hc.next?_cons with ⟨behind, hbehind, hrest⟩
    rw [hnext] at hbehind
    cases hbehind
    rw [hc.remaining_eq, hrest.remaining_eq, List.length_cons]

theorem calls (hc : c.Ahead es) (n : Nat) :
    (c.calls n).1 = (List.range n).map ((es.map (·.2))[·]?) ∧ (c.calls n).2.Ahead (es.drop n) := by
  -- at the end of the run `head?` is `none` and `tail` changes nothing, so no case is special
  induction n generalizing c es with
  | zero => exact ⟨rfl, hc⟩
  | succ n ih =>
    rcases hc.call with ⟨hanswer, hrest⟩
    rcases ih hrest with ⟨hanswers, hfinal⟩
    constructor
    · show c.call.1 :: (c.call.2.calls n).1 = _
      rw [hanswer, hanswers, map_getElem?_range_succ, List.head?_map, List.map_tail]
    · rwa [List.drop_tail] at hfinal

theorem take (hc : c.Ahead es) (n : Nat) :
    (c.take n).1 = (es.map (·.2)).take n ∧ (c.take n).2.Ahead (es.drop n) := by
  rcases c with ⟨l, position, remaining⟩
  rcases hc with ⟨⟨before, hseg⟩, rfl, rfl, hle⟩
  rw [hseg.take_eq]
  refine ⟨rfl, ?_, rfl, ?_, ?_⟩
  · -- the cursor stands at the seam between what is read and the rest
    rw [← List.take_append_drop n es, segment_append] at hseg
    exact ⟨_, hseg.2⟩
  · show es.length - (es.take n).length = (es.drop n).length
    rw [List.length_take, List.length_drop]
    omega
  · rw [List.length_drop]
    exact Nat.le_trans (Nat.sub_le es.length n) hle

theorem delivers (hc : c.Ahead es) : c.Delivers (es.map (·.2)) where
  calls_eq n := (hc.calls n).1
  rest_eq := by
    rcases hc.segment with ⟨before, hseg⟩
    rw [rest, hc.position_eq, hseg.walk_eq hc.length_le]
  counted n _ _ hnext := (hc.calls n).2.remaining_next hnext

end Ahead

end Cursor

/-! ## Cursors over edited lists -/

theorem Shape.ahead_iter {l : ArenaList α} {es : Sequence α} {vacant : List Nat}
    (hs : Shape l es vacant) : l.iter.Ahead es where
  segment := ⟨none, hs.segment⟩
  position_eq := hs.head_eq
  remaining_eq := hs.length_eq
  length_le := hs.length_le_size

/-- Reading a list is exact and ends, whatever was done to the list before. Its pairs are those of
the plain sequence that went through the same edits. A cursor that has taken up to `k` values has
taken the first `k` of them in order, says exactly how many are left, and gives these and then
nothing for good; its count is never zero when a value is taken. -/
theorem iter_exact (edits : List (Edit α)) :
    let l := ((empty : ArenaList α).editAll edits).2
    Sequence.Edits [] edits ((empty : ArenaList α).editAll edits).1 l.entries ∧
      l.length = l.toList.length ∧
      ∀ k, (l.iter.take k).1 = l.toList.take k ∧
        (l.iter.take k).2.sizeHint = (l.length - k, some (l.length - k)) ∧
        (l.iter.take k).2.Delivers (l.toList.drop k) := by
  intro l
  rcases shape_empty.editAll edits with ⟨hedits, vacant, hshape⟩
  refine ⟨hedits, ?_, ?_⟩
  · rw [toList, List.length_map]
    exact hshape.length_eq
  · intro k
    rcases hshape.ahead_iter.take k with ⟨htaken, hahead⟩
    refine ⟨htaken, ?_, ?_⟩
    · have hleft : (l.iter.take k).2.remaining = l.length - k := by
        rw [hahead.remaining_eq, List.length_drop, ← hshape.length_eq]
      rw [Cursor.sizeHint, hleft]
    · have hdelivers := hahead.delivers
      rwa [List.map_drop] at hdelivers

/-- The value 3 stands in the slot that 1 has left, and in front of the others. -/
example :
    let l := ((empty : ArenaList Nat).editAll
      [.pushBack 1, .pushBack 2, .remove ⟨0⟩, .pushFront 3, .pushBack 4]).2
    (l.iter.take 1).1 = [3] ∧ (l.iter.take 1).2.sizeHint = (2, some 2) ∧
      ((l.iter.take 1).2.calls 4).1 = [some 2, some 4, none, none] := by
  decide

end CacheLab.ArenaList
