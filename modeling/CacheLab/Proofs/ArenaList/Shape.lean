import CacheLab.Proofs.ArenaList.Segment

/-!
# CacheLab.Proofs.ArenaList.Shape — the invariant of an arena list

`Shape l es vacant` is the invariant: the pairs `es` are linked from `head` to
`tail` (`Linked`), and the slab is divided without rest into their slots and
the slots `vacant`, which the free chain visits in that order (`Slab`).

Each operation has one lemma here that says what becomes of `es` and `vacant`.
`Shape.insert` and `Shape.remove` carry the others. A handle that names no live
node is the subject of the last section: it changes nothing, in any state.
-/

namespace CacheLab.ArenaList

variable {α : Type} {l l' : ArenaList α}

/-! ## The slab -/

/-- The free chain from `start` visits the slots `vacant` and ends. -/
def FreeChain (l : ArenaList α) : Option Nat → List Nat → Prop
  | start, [] => start = none
  | start, i :: vacant =>
    start = some i ∧ ∃ next, l.nextFree? i = some next ∧ l.FreeChain next vacant

/-- Each slot is either in `live` or in `vacant`, which is the free chain. -/
structure Slab (l : ArenaList α) (live vacant : List Nat) : Prop where
  chain : l.FreeChain l.freeHead vacant
  slots_perm : (live ++ vacant).Perm (List.range l.slots.size)

theorem FreeChain.congr {start : Option Nat} {vacant : List Nat}
    (hsame : ∀ i ∈ vacant, l'.nextFree? i = l.nextFree? i) (hchain : l.FreeChain start vacant) :
    l'.FreeChain start vacant := by
  induction vacant generalizing start with
  | nil => exact hchain
  | cons i vacant ih =>
    rcases hchain with ⟨hstart, next, hnext, hrest⟩
    have htail : ∀ j ∈ vacant, l'.nextFree? j = l.nextFree? j := by
      intro j hj
      exact hsame j (List.mem_cons_of_mem _ hj)
    exact ⟨hstart, next, (hsame i List.mem_cons_self).trans hnext, ih htail hrest⟩

theorem FreeChain.nextFree?_isSome {start : Option Nat} {vacant : List Nat}
    (hchain : l.FreeChain start vacant) {i : Nat} (hi : i ∈ vacant) :
    (l.nextFree? i).isSome := by
  -- the chain is acyclic because the list of its slots is finite
  induction vacant generalizing start with
  | nil => simp at hi
  | cons j vacant ih =>
    rcases hchain with ⟨-, next, hnext, hrest⟩
    rcases List.mem_cons.mp hi with rfl | hmem
    · simp [hnext]
    · exact ih hrest hmem

namespace Slab

variable {live vacant : List Nat}

theorem congr (hsame : SameSlab l l') (hs : Slab l live vacant) : Slab l' live vacant where
  chain := by
    rw [hsame.freeHead_eq]
    exact hs.chain.congr fun i _ => hsame.nextFree?_eq i
  slots_perm := by
    rw [hsame.size_eq]
    exact hs.slots_perm

theorem perm {live' : List Nat} (hperm : live'.Perm live) (hs : Slab l live vacant) :
    Slab l live' vacant where
  chain := hs.chain
  slots_perm := (hperm.append_right vacant).trans hs.slots_perm

theorem withLength (hs : Slab l live vacant) (n : Nat) :
    Slab { l with length := n } live vacant where
  chain := FreeChain.congr (l := l) (fun _ _ => rfl) hs.chain
  slots_perm := hs.slots_perm

theorem nodup (hs : Slab l live vacant) : (live ++ vacant).Nodup :=
  hs.slots_perm.nodup_iff.mpr List.nodup_range

theorem mem_lt (hs : Slab l live vacant) {i : Nat} (hi : i ∈ live ++ vacant) :
    i < l.slots.size :=
  List.mem_range.mp (hs.slots_perm.mem_iff.mp hi)

theorem size_eq (hs : Slab l live vacant) : l.slots.size = live.length + vacant.length := by
  have hlen := hs.slots_perm.length_eq
  rw [List.length_append, List.length_range] at hlen
  exact hlen.symm

/-- A new node takes the slot freed last, or a new last slot. -/
theorem freshHandle_eq (hs : Slab l live vacant) :
    l.freshHandle = ⟨vacant.head?.getD l.slots.size⟩ := by
  cases vacant with
  | nil =>
    have hfree : l.freeHead = none := hs.chain
    simp [freshHandle, vacancy?, hfree]
  | cons i vacant =>
    rcases hs.chain with ⟨hfree, next, hnext, -⟩
    have hvac := (l.vacancy?_eq_some_iff).mpr ⟨hfree, hnext⟩
    simp [freshHandle, hvac]

theorem allocate (hs : Slab l live vacant) (value : α) :
    Slab (l.allocate value).2 (l.freshHandle.slot :: live) vacant.tail := by
  cases vacant with
  | nil =>
    -- no slot is vacant, so the slab grows by one
    have hfree : l.freeHead = none := hs.chain
    have hvac : l.vacancy? = none := by simp [vacancy?, hfree]
    have hperm := hs.slots_perm
    rw [List.append_nil] at hperm
    constructor
    · simp [ArenaList.allocate, hvac, hfree, FreeChain]
    · simp only [ArenaList.allocate, hvac, freshHandle, Array.size_push, List.range_succ,
        List.tail_nil, List.append_nil, Option.map_none, Option.getD_none]
      exact (List.Perm.cons _ hperm).trans (List.perm_append_singleton _ _).symm
  | cons i vacant =>
    rcases hs.chain with ⟨hfree, next, hnext, hrest⟩
    have hvac := (l.vacancy?_eq_some_iff).mpr ⟨hfree, hnext⟩
    have hfresh : l.freshHandle = ⟨i⟩ := hs.freshHandle_eq
    constructor
    · -- the rest of the chain does not pass through the slot that is taken
      have hnextHead : (l.allocate value).2.freeHead = next := by simp [ArenaList.allocate, hvac]
      rw [hnextHead]
      apply hrest.congr
      intro j hj
      apply l.nextFree?_allocate value
      · exact hs.mem_lt (List.mem_append_right _ (List.mem_cons_of_mem _ hj))
      · rintro rfl
        rw [hfresh] at hj
        exact (List.nodup_cons.mp hs.nodup.of_append_right).1 hj
    · have hsize : (l.allocate value).2.slots.size = l.slots.size := by
        simp [ArenaList.allocate, hvac]
      rw [hsize, hfresh]
      exact List.perm_middle.symm.trans hs.slots_perm

theorem release {h : Handle} (hs : Slab l (h.slot :: live) vacant) :
    Slab (l.release h) live (h.slot :: vacant) := by
  have hlt : h.slot < l.slots.size := hs.mem_lt (by simp)
  have hfresh : h.slot ∉ vacant := by
    intro hmem
    exact List.disjoint_of_nodup_append hs.nodup List.mem_cons_self hmem
  refine ⟨⟨rfl, l.freeHead, ?_, ?_⟩, ?_⟩
  · rw [l.nextFree?_release hlt, if_pos rfl]
  · -- the old chain hangs behind the released slot as it was
    apply hs.chain.congr
    intro i hi
    have hne : ¬ i = h.slot := by
      rintro rfl
      exact hfresh hi
    rw [l.nextFree?_release hlt, if_neg hne]
  · have hsize : (l.release h).slots.size = l.slots.size := by simp [ArenaList.release]
    rw [hsize]
    exact List.perm_middle.trans hs.slots_perm

end Slab

/-! ## The invariant -/

/-- The invariant: `es` are the linked pairs, `vacant` the vacant slots. -/
structure Shape (l : ArenaList α) (es : List (Handle × α)) (vacant : List Nat) : Prop
    extends Linked l es where
  length_eq : l.length = es.length
  slab : Slab l (es.map (·.1.slot)) vacant

theorem shape_empty : Shape (empty : ArenaList α) [] [] where
  head_eq := rfl
  tail_eq := rfl
  segment := trivial
  length_eq := rfl
  slab := ⟨rfl, List.Perm.refl []⟩

namespace Shape

variable {es xs ys : List (Handle × α)} {p : Handle × α} {vacant : List Nat}

theorem handles_nodup (hs : Shape l es vacant) : (es.map (·.1)).Nodup := by
  have hslots : (es.map (·.1.slot)).Nodup := hs.slab.nodup.of_append_left
  apply List.Nodup.of_map Handle.slot
  rw [List.map_map]
  exact hslots

/-- The node of a pair holds its value and the handles of its neighbours. -/
theorem node?_eq (hs : Shape l (xs ++ p :: ys) vacant) :
    l.node? p.1 = some ⟨p.2, lastHandle none xs, firstHandle ys none⟩ :=
  ((segment_split _ _ _ _ _).mp hs.segment).2.1

/-- The live nodes are the listed ones. -/
theorem get?_eq_some_iff (hs : Shape l es vacant) {h : Handle} {value : α} :
    l.get? h = some value ↔ (h, value) ∈ es := by
  constructor
  · intro hget
    rcases Option.map_eq_some_iff.mp hget with ⟨node, hnode, rfl⟩
    have hslot : h.slot ∈ es.map (·.1.slot) ++ vacant := by
      rw [hs.slab.slots_perm.mem_iff, List.mem_range]
      exact l.slot_lt_of_node? hnode
    rcases List.mem_append.mp hslot with hlive | hvacant
    · -- a live slot belongs to the pair that the node is read from
      rcases List.mem_map.mp hlive with ⟨q, hq, hqslot⟩
      rcases hs.segment.node?_isSome hq with ⟨node', hnode', hvalue⟩
      have hqh : q.1 = h := Handle.slot_inj.mp hqslot
      rw [hqh, hnode] at hnode'
      obtain rfl : node = node' := Option.some.inj hnode'
      rw [← hqh, hvalue]
      exact hq
    · -- a slot of the free chain is not occupied
      have hfree := hs.slab.chain.nextFree?_isSome hvacant
      rw [l.nextFree?_of_node? hnode] at hfree
      simp at hfree
  · intro hmem
    rcases hs.segment.node?_isSome hmem with ⟨node, hnode, hvalue⟩
    simp only [get?, hnode, Option.map_some, hvalue]

theorem contains_iff (hs : Shape l es vacant) {h : Handle} :
    l.contains h = true ↔ h ∈ es.map (·.1) := by
  have hcontains : l.contains h = (l.get? h).isSome := by simp [contains, get?]
  rw [hcontains, Option.isSome_iff_exists]
  constructor
  · rintro ⟨value, hvalue⟩
    exact List.mem_map_of_mem (f := (·.1)) (hs.get?_eq_some_iff.mp hvalue)
  · intro hmem
    rcases List.mem_map.mp hmem with ⟨q, hq, rfl⟩
    exact ⟨q.2, hs.get?_eq_some_iff.mpr hq⟩

theorem freshHandle_notMem (hs : Shape l es vacant) : l.freshHandle ∉ es.map (·.1) := by
  intro hmem
  have hcontains := hs.contains_iff.mpr hmem
  rw [contains, l.node?_freshHandle] at hcontains
  simp at hcontains

theorem length_le_size (hs : Shape l es vacant) : es.length ≤ l.slots.size := by
  have hsize := hs.slab.size_eq
  rw [List.length_map] at hsize
  omega

/-! ## Adding a node -/

/-- Linking a new node in at a seam, which is what the three insertions do. -/
theorem insert (xs ys : List (Handle × α)) (hs : Shape l (xs ++ ys) vacant) (value : α) :
    Shape { (l.allocate value).2.splice (lastHandle none xs) (firstHandle ys none) l.freshHandle
        with length := l.length + 1 }
      (xs ++ (l.freshHandle, value) :: ys) vacant.tail := by
  have hfresh := hs.freshHandle_notMem
  -- the allocation writes the fresh slot only, which is none of the linked ones
  have hlinked : Linked (l.allocate value).2 (xs ++ ys) := by
    refine ⟨?_, ?_, hs.segment.congr ?_⟩
    · rw [head_allocate, hs.head_eq]
    · rw [tail_allocate, hs.tail_eq]
    · intro h hh
      have hne : ¬ h = l.freshHandle := by
        rintro rfl
        exact hfresh hh
      rw [node?_allocate, if_neg hne]
  have hnode : (l.allocate value).2.node? l.freshHandle = some ⟨value, none, none⟩ := by
    rw [node?_allocate, if_pos rfl]
  have hspliced := hlinked.splice xs ys hs.handles_nodup hnode hfresh
  have hslab := (hs.slab.allocate value).congr
    (sameSlab_splice _ (lastHandle none xs) (firstHandle ys none) l.freshHandle)
  have hperm : ((xs ++ (l.freshHandle, value) :: ys).map (·.1.slot)).Perm
      (l.freshHandle.slot :: (xs ++ ys).map (·.1.slot)) := by
    simp
  exact
    { toLinked := hspliced.withLength _
      length_eq := by simp [hs.length_eq, Nat.add_assoc]
      slab := (hslab.perm hperm).withLength _ }

theorem pushFront (hs : Shape l es vacant) (value : α) :
    (l.pushFront value).1 = l.freshHandle ∧
      Shape (l.pushFront value).2 ((l.freshHandle, value) :: es) vacant.tail := by
  have hpush : l.pushFront value = (l.freshHandle,
      { (l.allocate value).2.splice none l.head l.freshHandle with length := l.length + 1 }) := by
    simp only [ArenaList.pushFront, allocate_fst, head_allocate, length_splice, length_allocate]
  rw [hpush]
  refine ⟨rfl, ?_⟩
  have hinsert := Shape.insert [] es hs value
  rwa [lastHandle_nil, ← hs.head_eq] at hinsert

theorem pushBack (hs : Shape l es vacant) (value : α) :
    (l.pushBack value).1 = l.freshHandle ∧
      Shape (l.pushBack value).2 (es ++ [(l.freshHandle, value)]) vacant.tail := by
  have hpush : l.pushBack value = (l.freshHandle,
      { (l.allocate value).2.splice l.tail none l.freshHandle with length := l.length + 1 }) := by
    simp only [ArenaList.pushBack, allocate_fst, tail_allocate, length_splice, length_allocate]
  rw [hpush]
  refine ⟨rfl, ?_⟩
  have hinsert := Shape.insert es [] (by simpa using hs) value
  rwa [firstHandle_nil, ← hs.tail_eq] at hinsert

theorem insertAfter (hs : Shape l (xs ++ p :: ys) vacant) (value : α) :
    (l.insertAfter p.1 value).1 = some l.freshHandle ∧
      Shape (l.insertAfter p.1 value).2 (xs ++ p :: (l.freshHandle, value) :: ys) vacant.tail := by
  have hnode := hs.node?_eq
  have hfresh : ¬ p.1 = l.freshHandle := by
    intro heq
    rw [heq, l.node?_freshHandle] at hnode
    simp at hnode
  -- the allocation comes first, but it leaves the link that is read here
  have hnext : (l.allocate value).2.next? p.1 = firstHandle ys none := by
    rw [next?, node?_allocate, if_neg hfresh, hnode]
    rfl
  have hinsertAfter : l.insertAfter p.1 value = (some l.freshHandle,
      { (l.allocate value).2.splice (some p.1) (firstHandle ys none) l.freshHandle
        with length := l.length + 1 }) := by
    simp only [ArenaList.insertAfter, contains, hnode, Option.isSome_some, if_true, allocate_fst,
      hnext, length_splice, length_allocate]
  rw [hinsertAfter]
  refine ⟨rfl, ?_⟩
  have hinsert := Shape.insert (xs ++ [p]) ys (by simpa using hs) value
  rw [lastHandle_append, List.append_assoc, List.singleton_append] at hinsert
  exact hinsert

/-! ## Taking a node out -/

theorem remove (hs : Shape l (xs ++ p :: ys) vacant) :
    (l.remove p.1).1 = some p.2 ∧
      Shape (l.remove p.1).2 (xs ++ ys) (p.1.slot :: vacant) := by
  rcases hs.toLinked.unlink hs.handles_nodup with ⟨hlinked, -⟩
  rcases nodup_handles_middle hs.handles_nodup with ⟨hfresh, -⟩
  have hperm : (p.1.slot :: (xs ++ ys).map (·.1.slot)).Perm
      ((xs ++ p :: ys).map (·.1.slot)) :=
    List.Perm.map (fun e : Handle × α => e.1.slot) List.perm_middle.symm
  have hslab := ((hs.slab.perm hperm).congr (l.sameSlab_unlink p.1)).release
  have hget : l.get? p.1 = some p.2 := hs.get?_eq_some_iff.mpr (by simp)
  have hremove : l.remove p.1 =
      (some p.2, { (l.unlink p.1).release p.1 with length := l.length - 1 }) := by
    simp only [ArenaList.remove, hget, length_release, (l.sameSlab_unlink p.1).length_eq]
  rw [hremove]
  refine ⟨rfl, ?_⟩
  -- the release writes the slot of `p` only, which is no longer linked
  have hreleased : Linked ((l.unlink p.1).release p.1) (xs ++ ys) := by
    refine ⟨hlinked.head_eq, hlinked.tail_eq, hlinked.segment.congr ?_⟩
    intro h hh
    have hne : ¬ h = p.1 := by
      rintro rfl
      exact hfresh hh
    rw [node?_release, if_neg hne]
  exact
    { toLinked := hreleased.withLength _
      length_eq := by simp [hs.length_eq]
      slab := hslab.withLength _ }

theorem moveToFront (hs : Shape l (xs ++ p :: ys) vacant) :
    (l.moveToFront p.1).1 = true ∧
      Shape (l.moveToFront p.1).2 (p :: (xs ++ ys)) vacant := by
  have hcontains : l.contains p.1 = true := hs.contains_iff.mpr (by simp)
  cases xs with
  | nil =>
    -- the first node stays where it is
    have hmove : l.moveToFront p.1 = (true, l) := by
      simp [ArenaList.moveToFront, hcontains, hs.head_eq]
    rw [hmove]
    exact ⟨rfl, hs⟩
  | cons q xs =>
    have hnodup := hs.handles_nodup
    have hne : ¬ l.head = some p.1 := by
      intro heq
      have hq : q.1 = p.1 := Option.some.inj (hs.head_eq.symm.trans heq)
      simp [hq] at hnodup
    have hmove : l.moveToFront p.1 =
        (true, (l.unlink p.1).splice none (l.unlink p.1).head p.1) := by
      simp [ArenaList.moveToFront, hcontains, hne]
    rw [hmove]
    refine ⟨rfl, ?_⟩
    rcases hs.toLinked.unlink hnodup with ⟨hlinked, hnode⟩
    rcases nodup_handles_middle hnodup with ⟨hfresh, hnodup⟩
    have hspliced : Linked ((l.unlink p.1).splice none (l.unlink p.1).head p.1)
        (p :: (q :: xs ++ ys)) := by
      rw [hlinked.head_eq]
      exact hlinked.splice [] _ hnodup hnode hfresh
    -- no slot is taken or released on the way
    have hslab := (hs.slab.congr (l.sameSlab_unlink p.1)).congr
      (sameSlab_splice _ none (l.unlink p.1).head p.1)
    have hperm : ((p :: (q :: xs ++ ys)).map (·.1.slot)).Perm
        ((q :: xs ++ p :: ys).map (·.1.slot)) :=
      List.Perm.map _ List.perm_middle.symm
    exact
      { toLinked := hspliced
        length_eq := by
          rw [length_splice, (l.sameSlab_unlink p.1).length_eq, hs.length_eq]
          simp [Nat.add_assoc]
        slab := hslab.perm hperm }

/-! ## The other operations -/

theorem popFront (hs : Shape l (p :: es) vacant) :
    (l.popFront).1 = some p.2 ∧ Shape (l.popFront).2 es (p.1.slot :: vacant) := by
  have hpop : l.popFront = l.remove p.1 := by simp [ArenaList.popFront, hs.head_eq]
  have hremove : Shape l ([] ++ p :: es) vacant := hs
  rw [hpop]
  exact hremove.remove

theorem popBack (hs : Shape l (es ++ [p]) vacant) :
    (l.popBack).1 = some p.2 ∧ Shape (l.popBack).2 es (p.1.slot :: vacant) := by
  have htail : l.tail = some p.1 := by
    rw [hs.tail_eq, lastHandle_append]
    rfl
  have hpop : l.popBack = l.remove p.1 := by simp [ArenaList.popBack, htail]
  have hremove := hs.remove
  rw [List.append_nil] at hremove
  rw [hpop]
  exact hremove

theorem modify (hs : Shape l (xs ++ p :: ys) vacant) (f : α → α) :
    Shape (l.modify p.1 f) (xs ++ (p.1, f p.2) :: ys) vacant := by
  have hnodup := hs.handles_nodup
  rcases nodup_handles_middle hnodup with ⟨hfresh, -⟩
  rw [List.map_append] at hfresh
  rcases (segment_split _ _ _ _ _).mp hs.segment with ⟨hx, hnode, hy⟩
  have hslots : (xs ++ (p.1, f p.2) :: ys).map (·.1.slot) = (xs ++ p :: ys).map (·.1.slot) := by
    simp
  refine ⟨⟨?_, ?_, (segment_split _ _ _ _ _).mpr ⟨?_, ?_, ?_⟩⟩, ?_, ?_⟩
  · rw [ArenaList.modify, head_modifyNode, hs.head_eq, firstHandle_append, firstHandle_append]
    rfl
  · rw [ArenaList.modify, tail_modifyNode, hs.tail_eq, lastHandle_append, lastHandle_append]
    rfl
  · exact hx.modifyNode (fun hmem => hfresh (List.mem_append_left _ hmem)) _
  · -- the node keeps its links and gets the new value
    rw [ArenaList.modify, node?_modifyNode, if_pos rfl, hnode]
    rfl
  · exact hy.modifyNode (fun hmem => hfresh (List.mem_append_right _ hmem)) _
  · rw [ArenaList.modify, (l.sameSlab_modifyNode _ _).length_eq, hs.length_eq]
    simp
  · rw [hslots]
    exact hs.slab.congr (l.sameSlab_modifyNode _ _)

theorem set (hs : Shape l (xs ++ p :: ys) vacant) (value : α) :
    (l.set p.1 value).1 = some p.2 ∧
      Shape (l.set p.1 value).2 (xs ++ (p.1, value) :: ys) vacant :=
  ⟨hs.get?_eq_some_iff.mpr (by simp), hs.modify fun _ => value⟩

/-! ## Reading -/

theorem walk_eq (hs : Shape l es vacant) {fuel : Nat} (hfuel : es.length ≤ fuel) :
    l.walk fuel l.head = es := by
  rw [hs.head_eq]
  exact hs.segment.walk_eq hfuel

theorem walkBack_eq (hs : Shape l es vacant) {fuel : Nat} (hfuel : es.length ≤ fuel) :
    l.walkBack fuel l.tail = es.reverse := by
  rw [hs.tail_eq]
  exact hs.segment.walkBack_eq hfuel

theorem entries_eq (hs : Shape l es vacant) : l.entries = es := hs.walk_eq hs.length_le_size

theorem head_eq_head? (hs : Shape l es vacant) : l.head = es.head?.map (·.1) := by
  rw [hs.head_eq, firstHandle_eq_head?]

theorem tail_eq_getLast? (hs : Shape l es vacant) : l.tail = es.getLast?.map (·.1) := by
  rw [hs.tail_eq, lastHandle_eq_getLast?]

theorem front?_eq (hs : Shape l es vacant) : l.front? = es.head?.map (·.2) := by
  rw [front?, hs.head_eq_head?]
  cases es with
  | nil => rfl
  | cons p es =>
    have hget : l.get? p.1 = some p.2 := hs.get?_eq_some_iff.mpr List.mem_cons_self
    simp [hget]

theorem back?_eq (hs : Shape l es vacant) : l.back? = es.getLast?.map (·.2) := by
  rw [back?, hs.tail_eq_getLast?]
  cases es using List.reverseRecOn with
  | nil => rfl
  | append_singleton es p =>
    have hget : l.get? p.1 = some p.2 := hs.get?_eq_some_iff.mpr (by simp)
    simp [hget]

theorem isEmpty_iff (hs : Shape l es vacant) : l.isEmpty = true ↔ es = [] := by
  rw [isEmpty, hs.length_eq, beq_iff_eq, List.length_eq_zero_iff]

theorem next?_eq (hs : Shape l (xs ++ p :: ys) vacant) : l.next? p.1 = ys.head?.map (·.1) := by
  rw [next?, hs.node?_eq, Option.bind_some, firstHandle_eq_head?]

theorem prev?_eq (hs : Shape l (xs ++ p :: ys) vacant) : l.prev? p.1 = xs.getLast?.map (·.1) := by
  rw [prev?, hs.node?_eq, Option.bind_some, lastHandle_eq_getLast?]

end Shape

/-- The list satisfies the invariant. -/
def WellFormed (l : ArenaList α) : Prop := ∃ vacant, Shape l l.entries vacant

theorem Shape.wellFormed {es : List (Handle × α)} {vacant : List Nat} (hs : Shape l es vacant) :
    l.WellFormed :=
  ⟨vacant, by rwa [hs.entries_eq]⟩

theorem wellFormed_empty : (empty : ArenaList α).WellFormed := shape_empty.wellFormed

/-! ## Well-formed lists by their entries -/

theorem Shape.wellFormed_entries {es : List (Handle × α)} {vacant : List Nat}
    (hs : Shape l es vacant) : l.WellFormed ∧ l.entries = es :=
  ⟨hs.wellFormed, hs.entries_eq⟩

namespace WellFormed

variable {es xs ys : List (Handle × α)} {p : Handle × α}

theorem shape_of_entries (hl : l.WellFormed) (hes : l.entries = es) :
    ∃ vacant, Shape l es vacant := by
  rw [← hes]
  exact hl

theorem pushFront (hl : l.WellFormed) (value : α) :
    (l.pushFront value).2.WellFormed ∧
      (l.pushFront value).2.entries = ((l.pushFront value).1, value) :: l.entries := by
  rcases hl with ⟨vacant, hs⟩
  rcases hs.pushFront value with ⟨hhandle, hshape⟩
  rw [hhandle]
  exact hshape.wellFormed_entries

theorem pushBack (hl : l.WellFormed) (value : α) :
    (l.pushBack value).2.WellFormed ∧
      (l.pushBack value).2.entries = l.entries ++ [((l.pushBack value).1, value)] := by
  rcases hl with ⟨vacant, hs⟩
  rcases hs.pushBack value with ⟨hhandle, hshape⟩
  rw [hhandle]
  exact hshape.wellFormed_entries

theorem remove (hl : l.WellFormed) (hes : l.entries = xs ++ p :: ys) :
    (l.remove p.1).2.WellFormed ∧ (l.remove p.1).2.entries = xs ++ ys := by
  rcases hl.shape_of_entries hes with ⟨vacant, hs⟩
  exact hs.remove.2.wellFormed_entries

theorem moveToFront (hl : l.WellFormed) (hes : l.entries = xs ++ p :: ys) :
    (l.moveToFront p.1).2.WellFormed ∧ (l.moveToFront p.1).2.entries = p :: (xs ++ ys) := by
  rcases hl.shape_of_entries hes with ⟨vacant, hs⟩
  exact hs.moveToFront.2.wellFormed_entries

theorem popFront (hl : l.WellFormed) (hes : l.entries = p :: es) :
    (l.popFront).2.WellFormed ∧ (l.popFront).2.entries = es := by
  rcases hl.shape_of_entries hes with ⟨vacant, hs⟩
  exact hs.popFront.2.wellFormed_entries

theorem popBack (hl : l.WellFormed) (hes : l.entries = es ++ [p]) :
    (l.popBack).2.WellFormed ∧ (l.popBack).2.entries = es := by
  rcases hl.shape_of_entries hes with ⟨vacant, hs⟩
  exact hs.popBack.2.wellFormed_entries

theorem get?_eq_some_iff (hl : l.WellFormed) {h : Handle} {value : α} :
    l.get? h = some value ↔ (h, value) ∈ l.entries := by
  rcases hl with ⟨vacant, hs⟩
  exact hs.get?_eq_some_iff

theorem front?_eq (hl : l.WellFormed) : l.front? = l.toList.head? := by
  rcases hl with ⟨vacant, hs⟩
  rw [hs.front?_eq, toList, List.head?_map]

theorem back?_eq (hl : l.WellFormed) : l.back? = l.toList.getLast? := by
  rcases hl with ⟨vacant, hs⟩
  rw [hs.back?_eq, toList, List.getLast?_map]

theorem back?_of_entries (hl : l.WellFormed) {xs : List (Handle × α)} {p : Handle × α}
    (hes : l.entries = xs ++ [p]) : l.back? = some p.2 := by
  rw [hl.back?_eq, toList, hes, List.map_append, List.map_singleton, List.getLast?_concat]

theorem length_eq (hl : l.WellFormed) : l.length = l.entries.length := by
  rcases hl with ⟨vacant, hs⟩
  exact hs.length_eq

theorem isEmpty_iff (hl : l.WellFormed) : l.isEmpty = true ↔ l.entries = [] := by
  rcases hl with ⟨vacant, hs⟩
  exact hs.isEmpty_iff

end WellFormed

/-! ## Dead handles -/

section Dead

variable {h : Handle}

theorem contains_eq_false_iff : l.contains h = false ↔ l.node? h = none := by
  rw [contains, Option.isSome_eq_false_iff, Option.isNone_iff_eq_none]

/-- A write through a dead handle writes nothing: the slot is vacant or outside the slab. -/
theorem modifyNode_of_dead (hdead : l.contains h = false) (f : Node α → Node α) :
    l.modifyNode h f = l := by
  have hnode : l.node? h = none := contains_eq_false_iff.mp hdead
  have hslots : l.slots.modify h.slot (Slot.mapNode f) = l.slots := by
    apply Array.ext_getElem?
    intro i
    rw [Array.getElem?_modify]
    split
    · rename_i heq
      subst heq
      cases hslot : l.slots[h.slot]? with
      | none => rfl
      | some slot =>
        cases slot with
        | occupied node => simp [node?, hslot, Slot.node?] at hnode
        | vacant next => rfl
    · rfl
  rw [modifyNode, hslots]

theorem insertAfter_of_dead (hdead : l.contains h = false) (value : α) :
    l.insertAfter h value = (none, l) := by
  simp [insertAfter, hdead]

theorem get?_of_dead (hdead : l.contains h = false) : l.get? h = none := by
  rw [get?, contains_eq_false_iff.mp hdead, Option.map_none]

theorem remove_of_dead (hdead : l.contains h = false) : l.remove h = (none, l) := by
  simp [remove, get?_of_dead hdead]

theorem moveToFront_of_dead (hdead : l.contains h = false) : l.moveToFront h = (false, l) := by
  simp [moveToFront, hdead]

theorem set_of_dead (hdead : l.contains h = false) (value : α) : l.set h value = (none, l) := by
  rw [set, get?_of_dead hdead, modify, modifyNode_of_dead hdead]

theorem next?_of_dead (hdead : l.contains h = false) : l.next? h = none := by
  rw [next?, contains_eq_false_iff.mp hdead, Option.bind_none]

theorem prev?_of_dead (hdead : l.contains h = false) : l.prev? h = none := by
  rw [prev?, contains_eq_false_iff.mp hdead, Option.bind_none]

end Dead

end CacheLab.ArenaList
