import CacheLab.Proofs.ArenaList.Nodes
import Mathlib.Data.List.Induction
import Mathlib.Data.List.Nodup

/-!
# CacheLab.Proofs.ArenaList.Segment — runs of linked nodes

`Segment l before es after` says that the nodes of `l` named in `es` hold its
values and form one run of links: forwards from the first pair to `after` and
backwards from the last pair to `before`. `Linked l es` says that one such run
is the whole list, from `head` to `tail`.

* `segment_append`: a run is two runs that meet at the seam.
* `Segment.congr`: a run reads only its own nodes.
* `Linked.splice` and `Linked.unlink`: the two edits. Each of them changes the
  seam alone, so the runs on both sides stay as they are.
-/

namespace CacheLab.ArenaList

variable {α : Type} {l l' : ArenaList α}

/-- The handle of the first pair, or `after` when there is none. -/
def firstHandle : List (Handle × α) → Option Handle → Option Handle
  | [], after => after
  | p :: _, _ => some p.1

/-- The handle of the last pair, or `before` when there is none. -/
def lastHandle : Option Handle → List (Handle × α) → Option Handle
  | before, [] => before
  | _, p :: es => lastHandle (some p.1) es

/-- The pairs `es` are one run of links between `before` and `after`. -/
def Segment (l : ArenaList α) : Option Handle → List (Handle × α) → Option Handle → Prop
  | _, [], _ => True
  | before, p :: es, after =>
    l.node? p.1 = some ⟨p.2, before, firstHandle es after⟩ ∧ l.Segment (some p.1) es after

@[simp] theorem firstHandle_nil (after : Option Handle) :
    firstHandle ([] : List (Handle × α)) after = after := rfl

@[simp] theorem firstHandle_cons (p : Handle × α) (es : List (Handle × α)) (after : Option Handle) :
    firstHandle (p :: es) after = some p.1 := rfl

@[simp] theorem lastHandle_nil (before : Option Handle) :
    lastHandle before ([] : List (Handle × α)) = before := rfl

@[simp] theorem lastHandle_cons (before : Option Handle) (p : Handle × α)
    (es : List (Handle × α)) : lastHandle before (p :: es) = lastHandle (some p.1) es := rfl

theorem firstHandle_append (xs ys : List (Handle × α)) (after : Option Handle) :
    firstHandle (xs ++ ys) after = firstHandle xs (firstHandle ys after) := by
  cases xs <;> rfl

theorem lastHandle_append (before : Option Handle) (xs ys : List (Handle × α)) :
    lastHandle before (xs ++ ys) = lastHandle (lastHandle before xs) ys := by
  induction xs generalizing before with
  | nil => rfl
  | cons p xs ih => exact ih (some p.1)

theorem firstHandle_eq_head? (es : List (Handle × α)) :
    firstHandle es none = es.head?.map (·.1) := by
  cases es <;> rfl

theorem lastHandle_eq_getLast? (es : List (Handle × α)) :
    lastHandle none es = es.getLast?.map (·.1) := by
  cases es using List.reverseRecOn with
  | nil => rfl
  | append_singleton xs p => simp [lastHandle_append]

theorem lastHandle_mem {xs : List (Handle × α)} {h : Handle} (hlast : lastHandle none xs = some h) :
    h ∈ xs.map (·.1) := by
  rw [lastHandle_eq_getLast?] at hlast
  rcases Option.map_eq_some_iff.mp hlast with ⟨p, hp, rfl⟩
  exact List.mem_map_of_mem (List.mem_of_getLast? hp)

theorem firstHandle_mem {ys : List (Handle × α)} {h : Handle}
    (hfirst : firstHandle ys none = some h) : h ∈ ys.map (·.1) := by
  rw [firstHandle_eq_head?] at hfirst
  rcases Option.map_eq_some_iff.mp hfirst with ⟨p, hp, rfl⟩
  exact List.mem_map_of_mem (List.mem_of_head? hp)

theorem lastHandle_eq_none_iff {xs : List (Handle × α)} : lastHandle none xs = none ↔ xs = [] := by
  rw [lastHandle_eq_getLast?, Option.map_eq_none_iff, List.getLast?_eq_none_iff]

/-- Taking one pair out of a list with distinct handles. -/
theorem nodup_handles_middle {xs ys : List (Handle × α)} {p : Handle × α}
    (hnodup : ((xs ++ p :: ys).map (·.1)).Nodup) :
    p.1 ∉ (xs ++ ys).map (·.1) ∧ ((xs ++ ys).map (·.1)).Nodup := by
  rw [List.map_append, List.map_cons, List.nodup_middle, ← List.map_append] at hnodup
  exact List.nodup_cons.mp hnodup

/-- The head after the part behind `xs` is replaced: it moves only if `xs` is empty. -/
theorem firstHandle_seam (xs ys zs : List (Handle × α)) :
    (if lastHandle none xs = none then firstHandle zs none else firstHandle (xs ++ ys) none) =
      firstHandle (xs ++ zs) none := by
  cases xs with
  | nil => rfl
  | cons p xs =>
    have hne : ¬ lastHandle none (p :: xs) = none := by
      intro hnone
      exact List.cons_ne_nil _ _ (lastHandle_eq_none_iff.mp hnone)
    rw [if_neg hne]
    rfl

/-- The tail after the part before `ys` is replaced: it moves only if `ys` is empty. -/
theorem lastHandle_seam (old new : Option Handle) (ys : List (Handle × α)) :
    (if firstHandle ys none = none then new else lastHandle old ys) = lastHandle new ys := by
  cases ys with
  | nil => rfl
  | cons p ys => rfl

/-! ## Runs of links -/

/-- A run is two runs that meet at the seam. -/
theorem segment_append (before after : Option Handle) (xs ys : List (Handle × α)) :
    l.Segment before (xs ++ ys) after ↔
      l.Segment before xs (firstHandle ys after) ∧ l.Segment (lastHandle before xs) ys after := by
  -- the induction moves `before` along the first run
  induction xs generalizing before with
  | nil => simp [Segment]
  | cons p xs ih =>
    simp only [List.cons_append, Segment, firstHandle_append, lastHandle_cons, ih, and_assoc]

/-- A run with one pair singled out. -/
theorem segment_split (before after : Option Handle) (xs ys : List (Handle × α))
    (p : Handle × α) :
    l.Segment before (xs ++ p :: ys) after ↔
      l.Segment before xs (some p.1) ∧
      l.node? p.1 = some ⟨p.2, lastHandle before xs, firstHandle ys after⟩ ∧
      l.Segment (some p.1) ys after := by
  rw [segment_append, firstHandle_cons, Segment]

/-- A run reads only its own nodes. -/
theorem Segment.congr {before after : Option Handle} {es : List (Handle × α)}
    (hsame : ∀ h ∈ es.map (·.1), l'.node? h = l.node? h) (hseg : l.Segment before es after) :
    l'.Segment before es after := by
  induction es generalizing before with
  | nil => trivial
  | cons p es ih =>
    rcases hseg with ⟨hnode, hrest⟩
    have htail : ∀ h ∈ es.map (·.1), l'.node? h = l.node? h := by
      intro h hh
      exact hsame h (List.mem_cons_of_mem _ hh)
    exact ⟨(hsame p.1 List.mem_cons_self).trans hnode, ih htail hrest⟩

/-- The pairs of a run are the live nodes that it names. -/
theorem Segment.node?_isSome {before after : Option Handle} {es : List (Handle × α)}
    (hseg : l.Segment before es after) {p : Handle × α} (hp : p ∈ es) :
    ∃ node, l.node? p.1 = some node ∧ node.value = p.2 := by
  rcases List.append_of_mem hp with ⟨xs, ys, rfl⟩
  exact ⟨_, ((segment_split _ _ _ _ _).mp hseg).2.1, rfl⟩

/-- The handles of a run name live nodes. -/
theorem Segment.contains {before after : Option Handle} {es : List (Handle × α)}
    (hseg : l.Segment before es after) {h : Handle} (hh : h ∈ es.map (·.1)) :
    l.contains h = true := by
  rcases List.mem_map.mp hh with ⟨p, hp, rfl⟩
  rcases hseg.node?_isSome hp with ⟨node, hnode, -⟩
  rw [ArenaList.contains, hnode, Option.isSome_some]

/-- The last node of a run is a live neighbour. -/
theorem Segment.filter_lastHandle {before after : Option Handle} {es : List (Handle × α)}
    (hseg : l.Segment before es after) :
    (lastHandle none es).filter l.contains = lastHandle none es :=
  l.filter_contains_of_live fun _ hlast => hseg.contains (lastHandle_mem hlast)

/-- The first node of a run is one as well. -/
theorem Segment.filter_firstHandle {before after : Option Handle} {es : List (Handle × α)}
    (hseg : l.Segment before es after) :
    (firstHandle es none).filter l.contains = firstHandle es none :=
  l.filter_contains_of_live fun _ hfirst => hseg.contains (firstHandle_mem hfirst)

/-- The last node of a run gets the link `target`. -/
theorem Segment.setNext {after target : Option Handle} {es : List (Handle × α)}
    (hnodup : (es.map (·.1)).Nodup) (hseg : l.Segment none es after) :
    (l.setNext (lastHandle none es) target).Segment none es target := by
  cases es using List.reverseRecOn with
  | nil => trivial
  | append_singleton xs p =>
    rw [List.map_append, List.map_singleton] at hnodup
    have hfresh : p.1 ∉ xs.map (·.1) :=
      List.disjoint_singleton.mp (List.disjoint_of_nodup_append hnodup)
    rw [segment_split] at hseg ⊢
    rcases hseg with ⟨hxs, hnode, -⟩
    have hlast : lastHandle none (xs ++ [p]) = some p.1 := by
      rw [lastHandle_append]
      rfl
    rw [hlast]
    refine ⟨hxs.congr ?_, ?_, trivial⟩
    · -- the nodes before the last one are not written
      intro h hh
      have hne : ¬ some p.1 = some h := by
        rintro ⟨rfl⟩
        exact hfresh hh
      rw [node?_setNext, if_neg hne]
    · rw [node?_setNext, if_pos rfl, hnode]
      rfl

/-- The first node of a run gets the link `target`. -/
theorem Segment.setPrev {before target : Option Handle} {es : List (Handle × α)}
    (hnodup : (es.map (·.1)).Nodup) (hseg : l.Segment before es none) :
    (l.setPrev (firstHandle es none) target).Segment target es none := by
  cases es with
  | nil => trivial
  | cons p es =>
    rcases List.nodup_cons.mp hnodup with ⟨hfresh, -⟩
    rcases hseg with ⟨hnode, hes⟩
    refine ⟨?_, hes.congr ?_⟩
    · rw [firstHandle_cons, node?_setPrev, if_pos rfl, hnode]
      rfl
    · -- the nodes behind the first one are not written
      intro h hh
      have hne : ¬ some p.1 = some h := by
        rintro ⟨rfl⟩
        exact hfresh hh
      rw [firstHandle_cons, node?_setPrev, if_neg hne]

/-! ## Following the links -/

/-- Following the `next` links from the first pair reads the run. -/
theorem Segment.walk_eq {before : Option Handle} {es : List (Handle × α)} {fuel : Nat}
    (hseg : l.Segment before es none) (hfuel : es.length ≤ fuel) :
    l.walk fuel (firstHandle es none) = es := by
  induction es generalizing before fuel with
  | nil => cases fuel <;> rfl
  | cons p es ih =>
    rcases hseg with ⟨hnode, hrest⟩
    cases fuel with
    | zero => simp at hfuel
    | succ fuel =>
      have hlen : es.length ≤ fuel := by simpa using hfuel
      simp only [firstHandle_cons, walk, hnode]
      rw [ih hrest hlen]

/-- Follows the `prev` links from `start` over at most `fuel` nodes. -/
def walkBack (l : ArenaList α) : Nat → Option Handle → List (Handle × α)
  | 0, _ => []
  | _ + 1, none => []
  | fuel + 1, some h =>
    match l.node? h with
    | none => []
    | some node => (h, node.value) :: l.walkBack fuel node.prev

/-- Following the `prev` links from the last pair reads the run backwards. -/
theorem Segment.walkBack_eq {after : Option Handle} {es : List (Handle × α)} {fuel : Nat}
    (hseg : l.Segment none es after) (hfuel : es.length ≤ fuel) :
    l.walkBack fuel (lastHandle none es) = es.reverse := by
  -- from the back, since the links are followed from the last pair
  induction es using List.reverseRecOn generalizing after fuel with
  | nil => cases fuel <;> rfl
  | append_singleton es p ih =>
    rcases (segment_split _ _ _ _ _).mp hseg with ⟨hes, hnode, -⟩
    cases fuel with
    | zero => simp at hfuel
    | succ fuel =>
      have hlen : es.length ≤ fuel := by simpa using hfuel
      rw [lastHandle_append, lastHandle_cons, lastHandle_nil, List.reverse_append]
      simp only [walkBack, hnode]
      rw [ih hes hlen]
      rfl

/-! ## Frames

A run stays as it is when the write goes to a node outside of it. -/

theorem Segment.modifyNode {before after : Option Handle} {es : List (Handle × α)} {h : Handle}
    (hfresh : h ∉ es.map (·.1)) (f : Node α → Node α) (hseg : l.Segment before es after) :
    (l.modifyNode h f).Segment before es after := by
  apply hseg.congr
  intro k hk
  have hne : ¬ k = h := by
    rintro rfl
    exact hfresh hk
  rw [node?_modifyNode, if_neg hne]

theorem Segment.setNext_disjoint {before after : Option Handle} {xs es : List (Handle × α)}
    (hdisj : List.Disjoint (xs.map (·.1)) (es.map (·.1))) (target : Option Handle)
    (hseg : l.Segment before es after) :
    (l.setNext (lastHandle none xs) target).Segment before es after := by
  apply hseg.congr
  intro k hk
  have hne : ¬ lastHandle none xs = some k := fun hlast => hdisj (lastHandle_mem hlast) hk
  rw [node?_setNext, if_neg hne]

theorem Segment.setPrev_disjoint {before after : Option Handle} {ys es : List (Handle × α)}
    (hdisj : List.Disjoint (ys.map (·.1)) (es.map (·.1))) (target : Option Handle)
    (hseg : l.Segment before es after) :
    (l.setPrev (firstHandle ys none) target).Segment before es after := by
  apply hseg.congr
  intro k hk
  have hne : ¬ firstHandle ys none = some k := fun hfirst => hdisj (firstHandle_mem hfirst) hk
  rw [node?_setPrev, if_neg hne]

/-! ## The whole list -/

/-- The pairs `es` are the list from `head` to `tail`. -/
structure Linked (l : ArenaList α) (es : List (Handle × α)) : Prop where
  head_eq : l.head = firstHandle es none
  tail_eq : l.tail = lastHandle none es
  segment : l.Segment none es none

theorem Linked.withLength {es : List (Handle × α)} (hl : Linked l es) (n : Nat) :
    Linked { l with length := n } es where
  head_eq := hl.head_eq
  tail_eq := hl.tail_eq
  segment := Segment.congr (l := l) (fun _ _ => rfl) hl.segment

/-- Linking the node `h` in at a seam. -/
theorem Linked.splice (xs ys : List (Handle × α)) {h : Handle} {node : Node α}
    (hl : Linked l (xs ++ ys)) (hnodup : ((xs ++ ys).map (·.1)).Nodup)
    (hnode : l.node? h = some node) (hfresh : h ∉ (xs ++ ys).map (·.1)) :
    Linked (l.splice (lastHandle none xs) (firstHandle ys none) h)
      (xs ++ (h, node.value) :: ys) := by
  rw [List.map_append] at hnodup hfresh
  rcases List.nodup_append.mp hnodup with ⟨hndx, hndy, -⟩
  have hdisj := List.disjoint_of_nodup_append hnodup
  have hfx : h ∉ xs.map (·.1) := fun hx => hfresh (List.mem_append_left _ hx)
  have hfy : h ∉ ys.map (·.1) := fun hy => hfresh (List.mem_append_right _ hy)
  -- neither neighbour is the new node itself
  have hlast : ¬ lastHandle none xs = some h := fun heq => hfx (lastHandle_mem heq)
  have hfirst : ¬ firstHandle ys none = some h := fun heq => hfy (firstHandle_mem heq)
  rcases (segment_append _ _ _ _).mp hl.segment with ⟨hx, hy⟩
  -- the runs as they are when the neighbours are looked up
  have hx' := hx.modifyNode hfx fun node =>
    { node with prev := lastHandle none xs, next := firstHandle ys none }
  have hy' := (hy.modifyNode hfy fun node =>
    { node with prev := lastHandle none xs, next := firstHandle ys none }).setNext_disjoint hdisj
      (some h)
  refine ⟨?_, ?_, (segment_split _ _ _ _ _).mpr ⟨?_, ?_, ?_⟩⟩
  · -- the head moves only if nothing stands before the seam
    rw [ArenaList.splice, head_setPrev, head_setNext, head_modifyNode, hl.head_eq,
      hx'.filter_lastHandle]
    exact firstHandle_seam xs ys ((h, node.value) :: ys)
  · -- the tail moves only if nothing stands behind it
    rw [ArenaList.splice, tail_setPrev, tail_setNext, tail_modifyNode, hl.tail_eq,
      hy'.filter_firstHandle, lastHandle_append, lastHandle_append, lastHandle_cons]
    exact lastHandle_seam _ _ ys
  · -- of the run before the seam only the last link is written
    exact (hx'.setNext hndx).setPrev_disjoint (List.disjoint_symm hdisj) _
  · -- the writes to the neighbours miss the new node
    rw [ArenaList.splice, node?_setPrev, if_neg hfirst, node?_setNext, if_neg hlast,
      node?_modifyNode, if_pos rfl, hnode]
    rfl
  · -- of the run behind it only the first one
    exact hy'.setPrev hndy

/-- Taking the pair `p` out and joining its neighbours. -/
theorem Linked.unlink {xs ys : List (Handle × α)} {p : Handle × α}
    (hl : Linked l (xs ++ p :: ys)) (hnodup : ((xs ++ p :: ys).map (·.1)).Nodup) :
    Linked (l.unlink p.1) (xs ++ ys) ∧ (l.unlink p.1).node? p.1 = some ⟨p.2, none, none⟩ := by
  rcases nodup_handles_middle hnodup with ⟨hfresh, hnodup⟩
  rw [List.map_append] at hfresh hnodup
  rcases List.nodup_append.mp hnodup with ⟨hndx, hndy, -⟩
  have hdisj := List.disjoint_of_nodup_append hnodup
  have hfx : p.1 ∉ xs.map (·.1) := fun hx => hfresh (List.mem_append_left _ hx)
  have hfy : p.1 ∉ ys.map (·.1) := fun hy => hfresh (List.mem_append_right _ hy)
  have hlast : ¬ lastHandle none xs = some p.1 := fun heq => hfx (lastHandle_mem heq)
  have hfirst : ¬ firstHandle ys none = some p.1 := fun heq => hfy (firstHandle_mem heq)
  rcases (segment_split _ _ _ _ _).mp hl.segment with ⟨hx, hnode, hy⟩
  -- the neighbours that `unlink` reads off the node are the ends of the two runs
  have hunlink : l.unlink p.1 =
      ((l.setNext (lastHandle none xs) (firstHandle ys none)).setPrev (firstHandle ys none)
        (lastHandle none xs)).modifyNode p.1 fun node =>
          { node with prev := none, next := none } := by
    rw [ArenaList.unlink, hnode]
  rw [hunlink]
  have hy' := hy.setNext_disjoint hdisj (firstHandle ys none)
  refine ⟨⟨?_, ?_, (segment_append _ _ _ _).mpr ⟨?_, ?_⟩⟩, ?_⟩
  · -- the head moves only if the first node is taken out
    rw [head_modifyNode, head_setPrev, head_setNext, hl.head_eq, hx.filter_lastHandle]
    exact firstHandle_seam xs (p :: ys) ys
  · -- the tail moves only if the last one is
    rw [tail_modifyNode, tail_setPrev, tail_setNext, hl.tail_eq, hy'.filter_firstHandle,
      lastHandle_append, lastHandle_append, lastHandle_cons]
    exact lastHandle_seam _ _ ys
  · exact ((hx.setNext hndx).setPrev_disjoint (List.disjoint_symm hdisj) _).modifyNode hfx _
  · exact (hy'.setPrev hndy).modifyNode hfy _
  · -- its neighbours are other nodes, so its value is still there
    rw [node?_modifyNode, if_pos rfl, node?_setPrev, if_neg hfirst, node?_setNext, if_neg hlast,
      hnode]
    rfl

end CacheLab.ArenaList
