import CacheLab.Proofs.ArenaList.Shape
import CacheLab.Proofs.Pairs

/-!
# CacheLab.Proofs.ArenaList.Sequence — arena lists are plain sequences

What a list is to its users: a finite sequence of pairs of handle and value
with distinct handles. `Sequence.Edits` lets such a sequence go through a
history of edits, where each new pair gets any handle that is not in use.

* `editAll_sequence`: an arena list that is made empty and edited in any way,
  also through dead handles, gives the replies of such a sequence and ends in
  it (`entries`); all that can be read off the list is read off the sequence
  (`Reads`), along the links in both directions; and a handle that is not in
  the sequence is refused without any change to the state (`Refuses`).
-/

namespace CacheLab

/-- One use of an arena list that may change it. -/
inductive Edit (α : Type) where
  | pushFront (value : α)
  | pushBack (value : α)
  | insertAfter (anchor : Handle) (value : α)
  | popFront
  | popBack
  | remove (h : Handle)
  | moveToFront (h : Handle)
  | set (h : Handle) (value : α)
  | clear

/-- What the user of a list sees of an edit. -/
inductive Reply (α : Type) where
  | handle (h : Option Handle)
  | value (value : Option α)
  | moved (moved : Bool)
  | done
deriving DecidableEq

namespace ArenaList

variable {α : Type}

/-- Makes one edit. -/
def edit (l : ArenaList α) : Edit α → Reply α × ArenaList α
  | .pushFront value => let (h, l) := l.pushFront value; (.handle (some h), l)
  | .pushBack value => let (h, l) := l.pushBack value; (.handle (some h), l)
  | .insertAfter anchor value => let (h, l) := l.insertAfter anchor value; (.handle h, l)
  | .popFront => let (value, l) := l.popFront; (.value value, l)
  | .popBack => let (value, l) := l.popBack; (.value value, l)
  | .remove h => let (value, l) := l.remove h; (.value value, l)
  | .moveToFront h => let (moved, l) := l.moveToFront h; (.moved moved, l)
  | .set h value => let (old, l) := l.set h value; (.value old, l)
  | .clear => (.done, l.clear)

/-- Makes the edits one after another. -/
def editAll (l : ArenaList α) : List (Edit α) → List (Reply α) × ArenaList α
  | [] => ([], l)
  | e :: edits =>
    let (reply, l) := l.edit e
    let (replies, l) := l.editAll edits
    (reply :: replies, l)

end ArenaList

/-! ## Plain sequences -/

/-- Pairs of handle and value from front to back. -/
abbrev Sequence (α : Type) := List (Handle × α)

namespace Sequence

variable {α : Type}

/-- The handles in use. -/
def handles (es : Sequence α) : List Handle := es.map (·.1)

/-- The sequence without the pair of `h`. -/
def without (es : Sequence α) (h : Handle) : Sequence α := es.filter (·.1 ≠ h)

/-- Puts `p` directly behind the pair of `anchor`. -/
def insertBehind (anchor : Handle) (p : Handle × α) : Sequence α → Sequence α
  | [] => []
  | q :: es => if q.1 = anchor then q :: p :: es else q :: insertBehind anchor p es

/-- Replaces the value of the pair of `h`. -/
def replace (es : Sequence α) (h : Handle) (value : α) : Sequence α :=
  es.map fun p => if p.1 = h then (h, value) else p

/-- Makes one edit; a new pair gets the handle `fresh`. -/
def edit (fresh : Handle) (es : Sequence α) : Edit α → Reply α × Sequence α
  | .pushFront value => (.handle (some fresh), (fresh, value) :: es)
  | .pushBack value => (.handle (some fresh), es ++ [(fresh, value)])
  | .insertAfter anchor value =>
    if anchor ∈ es.handles then
      (.handle (some fresh), es.insertBehind anchor (fresh, value))
    else
      (.handle none, es)
  | .popFront => (.value (es.head?.map (·.2)), es.tail)
  | .popBack => (.value (es.getLast?.map (·.2)), es.dropLast)
  | .remove h => (.value (es.lookup h), es.without h)
  | .moveToFront h =>
    match es.lookup h with
    | none => (.moved false, es)
    | some value => (.moved true, (h, value) :: es.without h)
  | .set h value => (.value (es.lookup h), es.replace h value)
  | .clear => (.done, [])

/-- `Edits es edits replies es'`: the edits take `es` to `es'` with these
replies, for some choice of a handle that is not in use at each edit. -/
inductive Edits : Sequence α → List (Edit α) → List (Reply α) → Sequence α → Prop where
  | nil (es : Sequence α) : Edits es [] [] es
  | cons {es es' : Sequence α} {e : Edit α} {edits : List (Edit α)} {replies : List (Reply α)}
      (fresh : Handle) (hfresh : fresh ∉ es.handles)
      (hrest : Edits (es.edit fresh e).2 edits replies es') :
      Edits es (e :: edits) ((es.edit fresh e).1 :: replies) es'

/-! ## Edits at a pair -/

variable {xs ys : Sequence α} {p q : Handle × α}

theorem without_middle (hnodup : (handles (xs ++ p :: ys)).Nodup) :
    without (xs ++ p :: ys) p.1 = xs ++ ys :=
  Pairs.filter_middle (ArenaList.nodup_handles_middle hnodup).1

theorem insertBehind_middle (hnodup : (handles (xs ++ p :: ys)).Nodup) :
    insertBehind p.1 q (xs ++ p :: ys) = xs ++ p :: q :: ys := by
  induction xs with
  | nil => simp [insertBehind]
  | cons x xs ih =>
    rcases List.nodup_cons.mp hnodup with ⟨hfresh, hnodup⟩
    have hne : ¬ x.1 = p.1 := by
      intro heq
      exact hfresh (by simp [heq])
    rw [List.cons_append, insertBehind, if_neg hne, ih hnodup]
    rfl

theorem replace_of_notMem {h : Handle} (hfresh : h ∉ handles xs) (value : α) :
    replace xs h value = xs := by
  have hsame : ∀ p ∈ xs, (if p.1 = h then (h, value) else p) = p := by
    intro p hp
    have hne : ¬ p.1 = h := by
      rintro rfl
      exact hfresh (List.mem_map_of_mem hp)
    rw [if_neg hne]
  rw [replace, List.map_congr_left hsame, List.map_id']

theorem replace_middle (hnodup : (handles (xs ++ p :: ys)).Nodup) (value : α) :
    replace (xs ++ p :: ys) p.1 value = xs ++ (p.1, value) :: ys := by
  rcases ArenaList.nodup_handles_middle hnodup with ⟨hfresh, -⟩
  rw [List.map_append] at hfresh
  have hx : p.1 ∉ handles xs := fun hmem => hfresh (List.mem_append_left _ hmem)
  have hy : p.1 ∉ handles ys := fun hmem => hfresh (List.mem_append_right _ hmem)
  have hsplit : replace (xs ++ p :: ys) p.1 value =
      replace xs p.1 value ++ (p.1, value) :: replace ys p.1 value := by
    simp [replace]
  rw [hsplit, replace_of_notMem hx, replace_of_notMem hy]

end Sequence

/-! ## Arena lists as sequences -/

namespace ArenaList

variable {α : Type} {l : ArenaList α} {es : Sequence α} {vacant : List Nat}

theorem Shape.lookup_eq (hs : Shape l es vacant) (h : Handle) : es.lookup h = l.get? h := by
  apply Option.ext
  intro value
  rw [Pairs.lookup_eq_some_iff_mem hs.handles_nodup, hs.get?_eq_some_iff]

/-- A handle in use stands at a pair of the sequence. -/
theorem Shape.split_of_mem (hs : Shape l es vacant) {h : Handle} (hmem : h ∈ es.handles) :
    ∃ xs value ys, es = xs ++ (h, value) :: ys ∧ Shape l (xs ++ (h, value) :: ys) vacant := by
  rcases List.mem_map.mp hmem with ⟨p, hp, rfl⟩
  rcases List.append_of_mem hp with ⟨xs, ys, rfl⟩
  exact ⟨xs, p.2, ys, rfl, hs⟩

theorem Shape.dead_of_notMem (hs : Shape l es vacant) {h : Handle} (hmem : h ∉ es.handles) :
    l.contains h = false := by
  rw [Bool.eq_false_iff, ne_eq, hs.contains_iff]
  exact hmem

/-- One edit of an arena list is one edit of its sequence; a new pair gets the
handle that the slab hands out, which is not in use. -/
theorem Shape.edit (hs : Shape l es vacant) (e : Edit α) :
    (l.edit e).1 = (es.edit l.freshHandle e).1 ∧
      ∃ vacant', Shape (l.edit e).2 (es.edit l.freshHandle e).2 vacant' := by
  cases e with
  | pushFront value =>
    rcases hs.pushFront value with ⟨hreply, hshape⟩
    exact ⟨congrArg (Reply.handle ∘ some) hreply, _, hshape⟩
  | pushBack value =>
    rcases hs.pushBack value with ⟨hreply, hshape⟩
    exact ⟨congrArg (Reply.handle ∘ some) hreply, _, hshape⟩
  | insertAfter anchor value =>
    by_cases hmem : anchor ∈ es.handles
    · -- the new pair comes between the anchor and what stands behind it
      rcases hs.split_of_mem hmem with ⟨xs, old, ys, rfl, hs⟩
      rcases hs.insertAfter value with ⟨hreply, hshape⟩
      simp only [ArenaList.edit, Sequence.edit, if_pos hmem]
      rw [Sequence.insertBehind_middle (p := (anchor, old)) hs.handles_nodup]
      exact ⟨congrArg Reply.handle hreply, _, hshape⟩
    · -- a dead anchor
      simp only [ArenaList.edit, Sequence.edit, if_neg hmem]
      rw [insertAfter_of_dead (hs.dead_of_notMem hmem)]
      exact ⟨rfl, _, hs⟩
  | popFront =>
    cases es with
    | nil =>
      have hpop : l.popFront = (none, l) := by simp [ArenaList.popFront, hs.head_eq]
      simp only [ArenaList.edit, Sequence.edit, hpop]
      exact ⟨rfl, _, hs⟩
    | cons p es =>
      rcases hs.popFront with ⟨hreply, hshape⟩
      exact ⟨congrArg Reply.value hreply, _, hshape⟩
  | popBack =>
    cases es using List.reverseRecOn with
    | nil =>
      have hpop : l.popBack = (none, l) := by simp [ArenaList.popBack, hs.tail_eq]
      simp only [ArenaList.edit, Sequence.edit, hpop]
      exact ⟨rfl, _, hs⟩
    | append_singleton es p =>
      rcases hs.popBack with ⟨hreply, hshape⟩
      simp only [ArenaList.edit, Sequence.edit, List.getLast?_concat, List.dropLast_concat]
      exact ⟨congrArg Reply.value hreply, _, hshape⟩
  | remove h =>
    simp only [ArenaList.edit, Sequence.edit, hs.lookup_eq h]
    by_cases hmem : h ∈ es.handles
    · rcases hs.split_of_mem hmem with ⟨xs, value, ys, rfl, hs⟩
      rcases hs.remove with ⟨hreply, hshape⟩
      have hget : l.get? h = some value := hs.get?_eq_some_iff.mpr (by simp)
      rw [Sequence.without_middle (p := (h, value)) hs.handles_nodup, hget]
      exact ⟨congrArg Reply.value hreply, _, hshape⟩
    · -- a dead handle
      have hdead := hs.dead_of_notMem hmem
      rw [remove_of_dead hdead, get?_of_dead hdead, Sequence.without, Pairs.filter_of_notMem hmem]
      exact ⟨rfl, _, hs⟩
  | moveToFront h =>
    simp only [ArenaList.edit, Sequence.edit, hs.lookup_eq h]
    by_cases hmem : h ∈ es.handles
    · rcases hs.split_of_mem hmem with ⟨xs, value, ys, rfl, hs⟩
      rcases hs.moveToFront with ⟨hreply, hshape⟩
      have hget : l.get? h = some value := hs.get?_eq_some_iff.mpr (by simp)
      rw [Sequence.without_middle (p := (h, value)) hs.handles_nodup, hget]
      exact ⟨congrArg Reply.moved hreply, _, hshape⟩
    · -- a dead handle
      have hdead := hs.dead_of_notMem hmem
      rw [moveToFront_of_dead hdead, get?_of_dead hdead]
      exact ⟨rfl, _, hs⟩
  | set h value =>
    simp only [ArenaList.edit, Sequence.edit, hs.lookup_eq h]
    by_cases hmem : h ∈ es.handles
    · rcases hs.split_of_mem hmem with ⟨xs, old, ys, rfl, hs⟩
      rcases hs.set value with ⟨hreply, hshape⟩
      have hget : l.get? h = some old := hs.get?_eq_some_iff.mpr (by simp)
      rw [Sequence.replace_middle (p := (h, old)) hs.handles_nodup, hget]
      exact ⟨congrArg Reply.value hreply, _, hshape⟩
    · -- a dead handle
      have hdead := hs.dead_of_notMem hmem
      rw [set_of_dead hdead, get?_of_dead hdead, Sequence.replace_of_notMem hmem]
      exact ⟨rfl, _, hs⟩
  | clear => exact ⟨rfl, [], shape_empty⟩

/-- A whole history of edits. -/
theorem Shape.editAll (hs : Shape l es vacant) (edits : List (Edit α)) :
    Sequence.Edits es edits (l.editAll edits).1 (l.editAll edits).2.entries ∧
      ∃ vacant', Shape (l.editAll edits).2 (l.editAll edits).2.entries vacant' := by
  induction edits generalizing l es vacant with
  | nil =>
    rw [ArenaList.editAll, hs.entries_eq]
    exact ⟨.nil es, vacant, hs⟩
  | cons e edits ih =>
    -- the slab hands out the fresh handle that the sequence may choose
    rcases hs.edit e with ⟨hreply, vacant', hshape⟩
    rcases ih hshape with ⟨hrest, hfinal⟩
    simp only [ArenaList.editAll, hreply]
    exact ⟨.cons l.freshHandle hs.freshHandle_notMem hrest, hfinal⟩

/-! ## Reading and refusing -/

/-- All that can be read off `l` is read off the sequence `es`. -/
structure Reads (l : ArenaList α) (es : Sequence α) : Prop where
  distinct : es.handles.Nodup
  length_eq : l.length = es.length
  head_eq : l.head = es.head?.map (·.1)
  tail_eq : l.tail = es.getLast?.map (·.1)
  front_eq : l.front? = es.head?.map (·.2)
  back_eq : l.back? = es.getLast?.map (·.2)
  get_eq : ∀ h, l.get? h = es.lookup h
  contains_iff : ∀ h, l.contains h = true ↔ h ∈ es.handles
  next_eq : ∀ xs p ys, es = xs ++ p :: ys → l.next? p.1 = ys.head?.map (·.1)
  prev_eq : ∀ xs p ys, es = xs ++ p :: ys → l.prev? p.1 = xs.getLast?.map (·.1)
  iter_eq : ∀ n, (l.iter.take n).1 = (es.map (·.2)).take n
  forwards : ∀ fuel, es.length ≤ fuel → l.walk fuel l.head = es
  backwards : ∀ fuel, es.length ≤ fuel → l.walkBack fuel l.tail = es.reverse

/-- Every use of the handle `h` is refused and leaves the state as it is. -/
structure Refuses (l : ArenaList α) (h : Handle) : Prop where
  contains_eq : l.contains h = false
  get_eq : l.get? h = none
  next_eq : l.next? h = none
  prev_eq : l.prev? h = none
  insertAfter_eq : ∀ value, l.insertAfter h value = (none, l)
  remove_eq : l.remove h = (none, l)
  moveToFront_eq : l.moveToFront h = (false, l)
  set_eq : ∀ value, l.set h value = (none, l)

/-- A cursor reads a run in order and stands behind what it has read. -/
theorem Segment.take_eq {before : Option Handle} (hseg : l.Segment before es none)
    (remaining n : Nat) :
    (Cursor.mk l (firstHandle es none) remaining).take n =
      ((es.map (·.2)).take n,
        ⟨l, firstHandle (es.drop n) none, remaining - (es.take n).length⟩) := by
  induction n generalizing es before remaining with
  | zero => rfl
  | succ n ih =>
    cases es with
    | nil => rfl
    | cons p es =>
      rcases hseg with ⟨hnode, hrest⟩
      have hnext : (Cursor.mk l (some p.1) remaining).next? =
          some (p.2, ⟨l, firstHandle es none, remaining - 1⟩) := by
        simp [Cursor.next?, hnode]
      simp only [firstHandle_cons, Cursor.take, hnext, ih hrest, List.map_cons,
        List.take_succ_cons, List.drop_succ_cons, List.length_cons]
      rw [Nat.sub_sub, Nat.add_comm 1]

theorem Shape.reads (hs : Shape l es vacant) : Reads l es where
  distinct := hs.handles_nodup
  length_eq := hs.length_eq
  head_eq := hs.head_eq_head?
  tail_eq := hs.tail_eq_getLast?
  front_eq := hs.front?_eq
  back_eq := hs.back?_eq
  get_eq h := (hs.lookup_eq h).symm
  contains_iff _ := hs.contains_iff
  next_eq := by
    rintro xs p ys rfl
    exact hs.next?_eq
  prev_eq := by
    rintro xs p ys rfl
    exact hs.prev?_eq
  iter_eq n := by
    rw [iter, hs.head_eq, hs.segment.take_eq]
  forwards _ := hs.walk_eq
  backwards _ := hs.walkBack_eq

theorem refuses_of_dead {h : Handle} (hdead : l.contains h = false) : Refuses l h where
  contains_eq := hdead
  get_eq := get?_of_dead hdead
  next_eq := next?_of_dead hdead
  prev_eq := prev?_of_dead hdead
  insertAfter_eq := insertAfter_of_dead hdead
  remove_eq := remove_of_dead hdead
  moveToFront_eq := moveToFront_of_dead hdead
  set_eq := set_of_dead hdead

/-- An arena list is a plain sequence: every history of edits on a new list
gives the replies of such a sequence and ends in it, the list reads it in both
directions, and handles that are not in it are refused without a change. -/
theorem editAll_sequence (edits : List (Edit α)) :
    let l := ((empty : ArenaList α).editAll edits).2
    Sequence.Edits [] edits ((empty : ArenaList α).editAll edits).1 l.entries ∧
      Reads l l.entries ∧ ∀ h, h ∈ Sequence.handles l.entries ∨ Refuses l h := by
  rcases shape_empty.editAll edits with ⟨hedits, vacant, hshape⟩
  refine ⟨hedits, hshape.reads, ?_⟩
  intro h
  by_cases hmem : h ∈ Sequence.handles ((empty : ArenaList α).editAll edits).2.entries
  · exact Or.inl hmem
  · exact Or.inr (refuses_of_dead (hshape.dead_of_notMem hmem))

end ArenaList

end CacheLab
