import CacheLab.Proofs.ArenaList.Sequence
import Mathlib.Data.List.DropRight
import Mathlib.Order.Bounds.Basic

/-!
# CacheLab.Proofs.ArenaList.Recycling — how the slots of a list are used again

An arena list asks for a new slot only when no slot is vacant, and it hands out the slot freed last.
What follows from this over a history of edits:

* `Shape.turn` is the step lemma: an edit other than `clear` takes the first slot of the free chain
  (or a new slot if the chain is empty), puts one slot in front of the chain, or leaves the slab
  alone.
* `Shape.size_edit`: the number of slots becomes the greater one of itself and the new length, so
  over a history it is the greatest length so far.
* `after_recycles`: in every state that edits lead to, counted from the last `clear`, the slots are
  as many as the most nodes that ever lived together, the free chain is the vacant slots from the
  one freed last on (`Recycles`), and a new node takes the first of them.
-/

namespace CacheLab

variable {α : Type}

/-! ## Histories -/

/-- Whether the edit drops every node and every slot. -/
def Edit.isClear : Edit α → Bool
  | .clear => true
  | _ => false

/-- The edits behind the last `clear`. -/
def Edit.sinceClear (edits : List (Edit α)) : List (Edit α) := edits.rtakeWhile (!·.isClear)

namespace ArenaList

/-- The state of a new list after edits. -/
def after (edits : List (Edit α)) : ArenaList α := ((empty : ArenaList α).editAll edits).2

theorem editAll_concat (l : ArenaList α) (edits : List (Edit α)) (e : Edit α) :
    (l.editAll (edits ++ [e])).2 = ((l.editAll edits).2.edit e).2 := by
  induction edits generalizing l with
  | nil => rfl
  | cons first edits ih => exact ih (l.edit first).2

theorem after_concat (edits : List (Edit α)) (e : Edit α) :
    after (edits ++ [e]) = ((after edits).edit e).2 :=
  editAll_concat empty edits e

/-- Nothing in front of a `clear` can be seen behind it. -/
theorem after_sinceClear (edits : List (Edit α)) : after (Edit.sinceClear edits) = after edits := by
  induction edits using List.reverseRecOn with
  | nil => rfl
  | append_singleton edits e ih =>
    rw [Edit.sinceClear, List.rtakeWhile_concat, ← Edit.sinceClear]
    cases hclear : e.isClear with
    | true =>
      cases e with
      | clear =>
        rw [after_concat]
        rfl
      | _ => cases hclear
    | false =>
      have hkept : (if (!false) = true then Edit.sinceClear edits ++ [e] else []) =
          Edit.sinceClear edits ++ [e] := if_pos rfl
      rw [hkept, after_concat, ih, after_concat]

/-- The edit behind `past` frees the slot `i`. -/
def Frees (history past : List (Edit α)) (i : Nat) : Prop :=
  ∃ e, past ++ [e] <+: history ∧ (after past).contains ⟨i⟩ = true ∧
    (after (past ++ [e])).contains ⟨i⟩ = false

/-- The slot `i` was freed, and the slot `j` was not freed since then. -/
def FreedLater (history : List (Edit α)) (i j : Nat) : Prop :=
  ∃ past, Frees history past i ∧ ∀ earlier, Frees history earlier j → earlier.length < past.length

/-- The slot `i` holds no node. -/
def Vacant (l : ArenaList α) (i : Nat) : Prop := ∃ next, l.slots[i]? = some (.vacant next)

/-- How a list uses its slots after a history of edits without `clear`. -/
structure Recycles (l : ArenaList α) (history : List (Edit α)) : Prop where
  /-- There are as many slots as the most nodes that ever lived together. -/
  peak : IsGreatest {n | ∃ past, past <+: history ∧ (after past).length = n} l.slots.size
  /-- The free chain visits each vacant slot once and ends; the slot freed last is the first. -/
  chain : ∃ vacant, l.FreeChain l.freeHead vacant ∧ vacant.Nodup ∧ (∀ i, i ∈ vacant ↔ l.Vacant i) ∧
    l.slots.size = l.length + vacant.length ∧ vacant.Pairwise (FreedLater history)
  /-- Each vacant slot was freed at some time. -/
  freed : ∀ i, l.Vacant i → ∃ past, Frees history past i
  /-- A new node takes a slot without a node: the vacant slot that was freed last, or a new last
  slot if none is vacant. -/
  taken : ∀ e h, (l.edit e).1 = .handle (some h) →
    l.contains h = false ∧ (l.edit e).2.contains h = true ∧
      (l.Vacant h.slot ∧ (∀ j, l.Vacant j → j ≠ h.slot → FreedLater history h.slot j) ∨
        h.slot = l.slots.size ∧ ∀ j, ¬ l.Vacant j)

/-! ## One edit -/

variable {l : ArenaList α} {es : Sequence α} {vacant : List Nat} {e : Edit α} {h : Handle} {i j : Nat}

/-- What an edit other than `clear` can do to the slab: with the handles in use and the free chain
before and after it. -/
inductive Turn (fresh : Handle) (live : List Handle) (vacant : List Nat) (live' : List Handle)
    (vacant' : List Nat) : Prop where
  | taken (hlive : live'.Perm (fresh :: live)) (hvacant : vacant' = vacant.tail)
  | freed (h : Handle) (hlive : live.Perm (h :: live')) (hvacant : vacant' = h.slot :: vacant)
  | kept (hlive : live'.Perm live) (hvacant : vacant' = vacant)

theorem handles_perm {es es' : Sequence α} (hperm : es.Perm es') :
    es.handles.Perm es'.handles := hperm.map _

namespace Shape

theorem turn_of_same (hs : Shape l es vacant) (hsame : (l.edit e).2 = l) :
    ∃ (es' : Sequence α) (vacant' : List Nat), Shape (l.edit e).2 es' vacant' ∧
      Turn l.freshHandle es.handles vacant es'.handles vacant' := by
  rw [hsame]
  exact ⟨es, vacant, hs, .kept (.refl _) rfl⟩

theorem turn (hs : Shape l es vacant) (he : e.isClear = false) :
    ∃ (es' : Sequence α) (vacant' : List Nat), Shape (l.edit e).2 es' vacant' ∧
      Turn l.freshHandle es.handles vacant es'.handles vacant' := by
  cases e with
  | pushFront value => exact ⟨_, _, (hs.pushFront value).2, .taken (.refl _) rfl⟩
  | pushBack value =>
    exact ⟨_, _, (hs.pushBack value).2, .taken (handles_perm (List.perm_append_singleton _ es)) rfl⟩
  | insertAfter anchor value =>
    by_cases hmem : anchor ∈ es.handles
    · rcases hs.split_of_mem hmem with ⟨xs, old, ys, rfl, hs⟩
      have hperm : (xs ++ (anchor, old) :: (l.freshHandle, value) :: ys).Perm
          ((l.freshHandle, value) :: (xs ++ (anchor, old) :: ys)) :=
        ((List.Perm.swap _ _ ys).append_left xs).trans List.perm_middle
      exact ⟨_, _, (hs.insertAfter value).2, .taken (handles_perm hperm) rfl⟩
    · exact hs.turn_of_same (congrArg Prod.snd (insertAfter_of_dead (hs.dead_of_notMem hmem) value))
  | popFront =>
    cases es with
    | nil =>
      have hpop : l.popFront = (none, l) := by simp [ArenaList.popFront, hs.head_eq]
      exact hs.turn_of_same (congrArg Prod.snd hpop)
    | cons p es => exact ⟨es, _, hs.popFront.2, .freed p.1 (.refl _) rfl⟩
  | popBack =>
    cases es using List.reverseRecOn with
    | nil =>
      have hpop : l.popBack = (none, l) := by simp [ArenaList.popBack, hs.tail_eq]
      exact hs.turn_of_same (congrArg Prod.snd hpop)
    | append_singleton es p =>
      exact ⟨es, _, hs.popBack.2, .freed p.1 (handles_perm (List.perm_append_singleton p es)) rfl⟩
  | remove h =>
    by_cases hmem : h ∈ es.handles
    · rcases hs.split_of_mem hmem with ⟨xs, value, ys, rfl, hs⟩
      exact ⟨_, _, hs.remove.2, .freed h (handles_perm List.perm_middle) rfl⟩
    · exact hs.turn_of_same (congrArg Prod.snd (remove_of_dead (hs.dead_of_notMem hmem)))
  | moveToFront h =>
    by_cases hmem : h ∈ es.handles
    · rcases hs.split_of_mem hmem with ⟨xs, value, ys, rfl, hs⟩
      exact ⟨_, _, hs.moveToFront.2, .kept (handles_perm List.perm_middle.symm) rfl⟩
    · exact hs.turn_of_same (congrArg Prod.snd (moveToFront_of_dead (hs.dead_of_notMem hmem)))
  | set h value =>
    by_cases hmem : h ∈ es.handles
    · rcases hs.split_of_mem hmem with ⟨xs, old, ys, rfl, hs⟩
      refine ⟨_, _, (hs.set value).2, .kept (.of_eq ?_) rfl⟩
      simp [Sequence.handles]
    · exact hs.turn_of_same (congrArg Prod.snd (set_of_dead (hs.dead_of_notMem hmem) value))
  | clear => cases he

theorem size_eq (hs : Shape l es vacant) : l.slots.size = l.length + vacant.length := by
  rw [hs.slab.size_eq, List.length_map, hs.length_eq]

/-- The slab grows only to hold more nodes than it has slots. -/
theorem size_edit (hs : Shape l es vacant) (he : e.isClear = false) :
    (l.edit e).2.slots.size = max l.slots.size (l.edit e).2.length ∧
      (l.edit e).2.length ≤ l.length + 1 := by
  rcases hs.turn he with ⟨es', vacant', hs', hturn⟩
  have hbefore := hs.size_eq
  have hafter := hs'.size_eq
  have hlength := hs.length_eq
  have hlength' := hs'.length_eq
  cases hturn with
  | taken hlive hvacant =>
    have hlives := hlive.length_eq
    simp only [Sequence.handles, List.length_map, List.length_cons] at hlives
    rw [hvacant, List.length_tail] at hafter
    omega
  | freed h hlive hvacant =>
    have hlives := hlive.length_eq
    simp only [Sequence.handles, List.length_map, List.length_cons] at hlives
    rw [hvacant, List.length_cons] at hafter
    omega
  | kept hlive hvacant =>
    have hlives := hlive.length_eq
    simp only [Sequence.handles, List.length_map] at hlives
    rw [hvacant] at hafter
    omega

/-- A slot of the free chain holds no node. -/
theorem dead_of_mem (hs : Shape l es vacant) (hi : i ∈ vacant) : l.contains ⟨i⟩ = false := by
  rw [contains_eq_false_iff]
  cases hnode : l.node? ⟨i⟩ with
  | none => rfl
  | some node =>
    have hfree := hs.slab.chain.nextFree?_isSome hi
    rw [l.nextFree?_of_node? hnode] at hfree
    cases hfree

/-- The free chain visits the vacant slots and no others. -/
theorem mem_vacant_iff (hs : Shape l es vacant) : i ∈ vacant ↔ l.Vacant i := by
  constructor
  · intro hi
    rcases Option.isSome_iff_exists.mp (hs.slab.chain.nextFree?_isSome hi) with ⟨next, hnext⟩
    rcases Option.bind_eq_some_iff.mp hnext with ⟨slot, hslot, hvacant⟩
    cases slot with
    | occupied node => cases hvacant
    | vacant next' => exact ⟨next', hslot⟩
  · rintro ⟨next, hslot⟩
    have hlt : i ∈ es.map (·.1.slot) ++ vacant := by
      rw [hs.slab.slots_perm.mem_iff, List.mem_range]
      exact (Array.getElem?_eq_some_iff.mp hslot).1
    rcases List.mem_append.mp hlt with hlive | hvacant
    · -- a linked slot is occupied
      rcases List.mem_map.mp hlive with ⟨p, hp, rfl⟩
      rcases hs.segment.node?_isSome hp with ⟨node, hnode, -⟩
      rw [node?, hslot] at hnode
      cases hnode
    · exact hvacant

/-- The only handle that an edit can answer for a new node is the fresh one. -/
theorem edit_handle (hs : Shape l es vacant) (hreply : (l.edit e).1 = .handle (some h)) :
    h = l.freshHandle ∧ (l.edit e).2.contains h = true := by
  rcases hs.edit e with ⟨hsame, vacant', hshape⟩
  rw [hshape.contains_iff]
  rw [hsame] at hreply
  cases e with
  | pushFront value =>
    cases hreply
    exact ⟨rfl, List.mem_cons_self⟩
  | pushBack value =>
    cases hreply
    refine ⟨rfl, ?_⟩
    rw [Sequence.edit, List.map_append]
    exact List.mem_append_right _ List.mem_cons_self
  | insertAfter anchor value =>
    rw [Sequence.edit] at hreply ⊢
    by_cases hmem : anchor ∈ es.handles
    · rw [if_pos hmem] at hreply ⊢
      cases hreply
      rcases hs.split_of_mem hmem with ⟨xs, old, ys, rfl, hs⟩
      rw [Sequence.insertBehind_middle (p := (anchor, old)) hs.handles_nodup]
      exact ⟨rfl, by simp⟩
    · rw [if_neg hmem] at hreply
      cases hreply
  | moveToFront h' =>
    rw [Sequence.edit] at hreply
    cases hlookup : es.lookup h' <;> rw [hlookup] at hreply <;> cases hreply
  | _ => cases hreply

end Shape

/-! ## Histories of edits -/

theorem Frees.mono {history past : List (Edit α)} (hfrees : Frees history past i) :
    Frees (history ++ [e]) past i := by
  rcases hfrees with ⟨e', hpast, hlive, hdead⟩
  exact ⟨e', hpast.trans (List.prefix_append _ _), hlive, hdead⟩

/-- A slot that holds no node is not freed by the next edit. -/
theorem Frees.of_concat {history past : List (Edit α)} (hdead : (after history).contains ⟨i⟩ = false)
    (hfrees : Frees (history ++ [e]) past i) : Frees history past i := by
  rcases hfrees with ⟨e', hpast, hlive, hgone⟩
  rcases List.prefix_concat_iff.mp hpast with hlast | hearlier
  · obtain ⟨rfl, -⟩ := List.append_inj' hlast rfl
    rw [hdead] at hlive
    cases hlive
  · exact ⟨e', hearlier, hlive, hgone⟩

theorem Frees.length_lt {history past : List (Edit α)} (hfrees : Frees history past i) :
    past.length < history.length := by
  rcases hfrees with ⟨e', hpast, -, -⟩
  have hlength := hpast.length_le
  rw [List.length_append] at hlength
  exact hlength

theorem FreedLater.concat {history : List (Edit α)} (hlater : FreedLater history i j)
    (hdead : (after history).contains ⟨j⟩ = false) : FreedLater (history ++ [e]) i j := by
  rcases hlater with ⟨past, hfrees, hearlier⟩
  exact ⟨past, hfrees.mono, fun past' hfrees' => hearlier past' (hfrees'.of_concat hdead)⟩

/-- A slot that the last edit frees is freed later than all that hold no node before it. -/
theorem FreedLater.of_last {history : List (Edit α)} (hlive : (after history).contains ⟨i⟩ = true)
    (hgone : (after (history ++ [e])).contains ⟨i⟩ = false)
    (hdead : (after history).contains ⟨j⟩ = false) : FreedLater (history ++ [e]) i j := by
  refine ⟨history, ⟨e, List.prefix_rfl, hlive, hgone⟩, ?_⟩
  intro earlier hfrees
  exact (hfrees.of_concat hdead).length_lt

/-- The free chain after a history stands in the order in which its slots were freed. -/
theorem shape_after {history : List (Edit α)} (hclear : ∀ e ∈ history, e.isClear = false) :
    ∃ es vacant, Shape (after history) es vacant ∧ vacant.Pairwise (FreedLater history) ∧
      ∀ i ∈ vacant, ∃ past, Frees history past i := by
  induction history using List.reverseRecOn with
  | nil => exact ⟨[], [], shape_empty, List.Pairwise.nil, List.forall_mem_nil _⟩
  | append_singleton history e ih =>
    rw [List.forall_mem_append, List.forall_mem_singleton] at hclear
    rcases ih hclear.1 with ⟨es, vacant, hs, hordered, hfreed⟩
    rcases hs.turn hclear.2 with ⟨es', vacant', hs', hturn⟩
    rw [← after_concat] at hs'
    -- what is in the chain already keeps its order, since the edit frees none of it
    have hordered' : vacant.Pairwise (FreedLater (history ++ [e])) :=
      hordered.imp_of_mem fun _ hj hlater => hlater.concat (hs.dead_of_mem hj)
    have hfreed' : ∀ i ∈ vacant, ∃ past, Frees (history ++ [e]) past i := by
      intro i hi
      rcases hfreed i hi with ⟨past, hfrees⟩
      exact ⟨past, hfrees.mono⟩
    refine ⟨es', vacant', hs', ?_⟩
    cases hturn with
    | taken hlive hvacant =>
      rw [hvacant]
      exact ⟨hordered'.tail, fun i hi => hfreed' i (List.mem_of_mem_tail hi)⟩
    | kept hlive hvacant =>
      rw [hvacant]
      exact ⟨hordered', hfreed'⟩
    | freed h hlive hvacant =>
      have hbefore : (after history).contains ⟨h.slot⟩ = true :=
        hs.contains_iff.mpr (hlive.mem_iff.mpr List.mem_cons_self)
      have hgone : (after (history ++ [e])).contains ⟨h.slot⟩ = false :=
        hs'.dead_of_mem (hvacant ▸ List.mem_cons_self)
      rw [hvacant, List.pairwise_cons, List.forall_mem_cons]
      refine ⟨⟨fun j hj => ?_, hordered'⟩, ⟨history, e, List.prefix_rfl, hbefore, hgone⟩, hfreed'⟩
      exact FreedLater.of_last hbefore hgone (hs.dead_of_mem hj)

/-- Over a history without `clear`, the number of slots is the greatest length so far. -/
theorem isGreatest_size {history : List (Edit α)} (hclear : ∀ e ∈ history, e.isClear = false) :
    IsGreatest {n | ∃ past, past <+: history ∧ (after past).length = n}
      (after history).slots.size := by
  induction history using List.reverseRecOn with
  | nil =>
    refine ⟨⟨[], List.prefix_rfl, rfl⟩, ?_⟩
    rintro n ⟨past, hpast, rfl⟩
    rw [List.prefix_nil.mp hpast]
    exact Nat.le_refl 0
  | append_singleton history e ih =>
    rw [List.forall_mem_append, List.forall_mem_singleton] at hclear
    rcases ih hclear.1 with ⟨⟨peak, hpeak, hsize⟩, hupper⟩
    rcases shape_after hclear.1 with ⟨es, vacant, hs, -, -⟩
    have hgrown := (hs.size_edit hclear.2).1
    rw [← after_concat] at hgrown
    rw [hgrown]
    constructor
    · rcases Nat.le_total (after history).slots.size (after (history ++ [e])).length with hle | hle
      · rw [Nat.max_eq_right hle]
        exact ⟨history ++ [e], List.prefix_rfl, rfl⟩
      · rw [Nat.max_eq_left hle]
        exact ⟨peak, hpeak.trans (List.prefix_append _ _), hsize⟩
    · rintro n ⟨past, hpast, rfl⟩
      rcases List.prefix_concat_iff.mp hpast with rfl | hearlier
      · exact Nat.le_max_right _ _
      · exact Nat.le_trans (hupper ⟨past, hearlier, rfl⟩) (Nat.le_max_left _ _)

/-- Whatever is done to a list, since the last `clear` it has recycled its slots. -/
theorem after_recycles (edits : List (Edit α)) :
    Recycles (after edits) (Edit.sinceClear edits) := by
  have hclear : ∀ e ∈ Edit.sinceClear edits, e.isClear = false := by
    intro e he
    simpa using List.mem_rtakeWhile_imp he
  rcases shape_after hclear with ⟨es, vacant, hs, hordered, hfreed⟩
  have hpeak := isGreatest_size hclear
  rw [after_sinceClear] at hs hpeak
  have hfresh := hs.slab.freshHandle_eq
  constructor
  case peak => exact hpeak
  case chain =>
    exact ⟨vacant, hs.slab.chain, hs.slab.nodup.of_append_right, fun _ => hs.mem_vacant_iff, hs.size_eq,
      hordered⟩
  case freed => exact fun i hi => hfreed i (hs.mem_vacant_iff.mpr hi)
  case taken =>
    intro e h hreply
    rcases hs.edit_handle hreply with ⟨rfl, hlive⟩
    refine ⟨contains_eq_false_iff.mpr (node?_freshHandle _), hlive, ?_⟩
    rw [hfresh]
    cases vacant with
    | nil => exact Or.inr ⟨rfl, fun j hj => nomatch hs.mem_vacant_iff.mpr hj⟩
    | cons i vacant =>
      refine Or.inl ⟨hs.mem_vacant_iff.mp List.mem_cons_self, fun j hj hne => ?_⟩
      have hmem : j ∈ vacant := (List.mem_cons.mp (hs.mem_vacant_iff.mpr hj)).resolve_left hne
      exact (List.pairwise_cons.mp hordered).1 j hmem

end ArenaList

end CacheLab
