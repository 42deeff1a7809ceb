import CacheLab.ArenaList

/-!
# CacheLab.Proofs.ArenaList.Nodes — what one write does to the slots

The operations of an `ArenaList` are made of five writes: `modifyNode`,
`setNext`, `setPrev`, `allocate` and `release`. Each of them is described here
once, by what it does

* to `node?`, the live nodes, and
* to `nextFree?`, the links between the vacant slots.

The first three leave the vacant slots alone (`SameSlab`). Everything above
this module is proved from these equations; nothing else looks into the array.
-/

namespace CacheLab

theorem Handle.slot_inj {h k : Handle} : h.slot = k.slot ↔ h = k := by
  cases h
  cases k
  simp

/-- The link of a vacant slot to the vacant slot behind it. -/
def Slot.nextFree? {α : Type} : Slot α → Option (Option Nat)
  | occupied _ => none
  | vacant next => some next

namespace ArenaList

variable {α : Type} (l : ArenaList α)

/-- The link of the vacant slot `i` to the vacant slot behind it. -/
def nextFree? (i : Nat) : Option (Option Nat) := l.slots[i]?.bind Slot.nextFree?

/-- A live node lies inside the slab. -/
theorem slot_lt_of_node? {h : Handle} {node : Node α} (hnode : l.node? h = some node) :
    h.slot < l.slots.size := by
  apply Nat.lt_of_not_le
  intro hge
  rw [node?, Array.getElem?_eq_none hge] at hnode
  simp at hnode

/-- No slot is both live and vacant. -/
theorem nextFree?_of_node? {h : Handle} {node : Node α} (hnode : l.node? h = some node) :
    l.nextFree? h.slot = none := by
  rcases Option.bind_eq_some_iff.mp hnode with ⟨slot, hslot, hocc⟩
  cases slot with
  | occupied node' => simp [nextFree?, hslot, Slot.nextFree?]
  | vacant next => simp [Slot.node?] at hocc

/-! ## Writes to links -/

/-- `l'` has the vacant slots of `l` and as many nodes. -/
structure SameSlab (l l' : ArenaList α) : Prop where
  size_eq : l'.slots.size = l.slots.size
  freeHead_eq : l'.freeHead = l.freeHead
  length_eq : l'.length = l.length
  nextFree?_eq : ∀ i, l'.nextFree? i = l.nextFree? i

variable {l} in
theorem SameSlab.trans {l' l'' : ArenaList α} (h : SameSlab l l') (h' : SameSlab l' l'') :
    SameSlab l l'' where
  size_eq := h'.size_eq.trans h.size_eq
  freeHead_eq := h'.freeHead_eq.trans h.freeHead_eq
  length_eq := h'.length_eq.trans h.length_eq
  nextFree?_eq i := (h'.nextFree?_eq i).trans (h.nextFree?_eq i)

theorem node?_modifyNode (h k : Handle) (f : Node α → Node α) :
    (l.modifyNode h f).node? k = if k = h then (l.node? k).map f else l.node? k := by
  simp only [node?, modifyNode, Array.getElem?_modify]
  by_cases hk : k = h
  · subst hk
    rw [if_pos rfl, if_pos rfl]
    cases l.slots[k.slot]? with
    | none => rfl
    | some slot => cases slot <;> rfl
  · have hslot : ¬ h.slot = k.slot := fun heq => hk (Handle.slot_inj.mp heq.symm)
    rw [if_neg hslot, if_neg hk]

theorem sameSlab_modifyNode (h : Handle) (f : Node α → Node α) :
    SameSlab l (l.modifyNode h f) where
  size_eq := by simp [modifyNode]
  freeHead_eq := rfl
  length_eq := rfl
  nextFree?_eq i := by
    simp only [nextFree?, modifyNode, Array.getElem?_modify]
    split
    · cases l.slots[i]? with
      | none => rfl
      | some slot => cases slot <;> rfl
    · rfl

/-- A handle that names no live node is no neighbour. -/
theorem filter_contains_cases (neighbour : Option Handle) :
    (neighbour.filter l.contains = none ∧ ∀ h, neighbour = some h → l.node? h = none) ∨
      ∃ h, neighbour = some h ∧ neighbour.filter l.contains = some h := by
  cases neighbour with
  | none => exact Or.inl ⟨rfl, nofun⟩
  | some h =>
    cases hlive : l.contains h with
    | true => exact Or.inr ⟨h, rfl, by rw [Option.filter_some, if_pos hlive]⟩
    | false =>
      refine Or.inl ⟨by rw [Option.filter_some, if_neg (by simp [hlive])], ?_⟩
      rintro k ⟨rfl⟩
      exact Option.isNone_iff_eq_none.mp (by simpa [contains] using hlive)

theorem filter_contains_of_live {neighbour : Option Handle}
    (hlive : ∀ h, neighbour = some h → l.contains h = true) :
    neighbour.filter l.contains = neighbour := by
  cases neighbour with
  | none => rfl
  | some h => rw [Option.filter_some, if_pos (hlive h rfl)]

theorem node?_setNext (before target : Option Handle) (k : Handle) :
    (l.setNext before target).node? k =
      if before = some k then (l.node? k).map fun node => { node with next := target }
      else l.node? k := by
  unfold setNext
  rcases l.filter_contains_cases before with ⟨hnone, hdead⟩ | ⟨h, rfl, hlive⟩
  · -- no node is written, and there was none to write to
    rw [hnone]
    show l.node? k = _
    split
    case isTrue heq => rw [hdead k heq, Option.map_none]
    case isFalse => rfl
  · simp only [hlive, node?_modifyNode, Option.some.injEq, eq_comm]

theorem node?_setPrev (after target : Option Handle) (k : Handle) :
    (l.setPrev after target).node? k =
      if after = some k then (l.node? k).map fun node => { node with prev := target }
      else l.node? k := by
  unfold setPrev
  rcases l.filter_contains_cases after with ⟨hnone, hdead⟩ | ⟨h, rfl, hlive⟩
  · rw [hnone]
    show l.node? k = _
    split
    case isTrue heq => rw [hdead k heq, Option.map_none]
    case isFalse => rfl
  · simp only [hlive, node?_modifyNode, Option.some.injEq, eq_comm]

theorem sameSlab_setNext (before target : Option Handle) :
    SameSlab l (l.setNext before target) := by
  unfold setNext
  cases before.filter l.contains with
  | none => exact ⟨rfl, rfl, rfl, fun _ => rfl⟩
  | some h => exact l.sameSlab_modifyNode h _

theorem sameSlab_setPrev (after target : Option Handle) :
    SameSlab l (l.setPrev after target) := by
  unfold setPrev
  cases after.filter l.contains with
  | none => exact ⟨rfl, rfl, rfl, fun _ => rfl⟩
  | some h => exact l.sameSlab_modifyNode h _

theorem sameSlab_splice (before after : Option Handle) (h : Handle) :
    SameSlab l (l.splice before after h) :=
  ((l.sameSlab_modifyNode h _).trans (sameSlab_setNext _ before _)).trans
    (sameSlab_setPrev _ after _)

theorem sameSlab_unlink (h : Handle) : SameSlab l (l.unlink h) := by
  unfold unlink
  cases l.node? h with
  | none => exact ⟨rfl, rfl, rfl, fun _ => rfl⟩
  | some node =>
    exact ((l.sameSlab_setNext _ _).trans (sameSlab_setPrev _ _ _)).trans
      (sameSlab_modifyNode _ h _)

@[simp] theorem length_splice (before after : Option Handle) (h : Handle) :
    (l.splice before after h).length = l.length := (l.sameSlab_splice before after h).length_eq

@[simp] theorem length_release (h : Handle) : (l.release h).length = l.length := rfl

@[simp] theorem head_modifyNode (h : Handle) (f : Node α → Node α) :
    (l.modifyNode h f).head = l.head := rfl

@[simp] theorem tail_modifyNode (h : Handle) (f : Node α → Node α) :
    (l.modifyNode h f).tail = l.tail := rfl

/-- The head moves unless `before` names a live node. -/
@[simp] theorem head_setNext (before target : Option Handle) :
    (l.setNext before target).head =
      if before.filter l.contains = none then target else l.head := by
  unfold setNext
  cases before.filter l.contains <;> simp

@[simp] theorem tail_setNext (before target : Option Handle) :
    (l.setNext before target).tail = l.tail := by
  unfold setNext
  cases before.filter l.contains <;> rfl

@[simp] theorem head_setPrev (after target : Option Handle) :
    (l.setPrev after target).head = l.head := by
  unfold setPrev
  cases after.filter l.contains <;> rfl

/-- The tail moves unless `after` names a live node. -/
@[simp] theorem tail_setPrev (after target : Option Handle) :
    (l.setPrev after target).tail =
      if after.filter l.contains = none then target else l.tail := by
  unfold setPrev
  cases after.filter l.contains <;> simp

/-! ## Taking a slot and giving it back -/

/-- The slot that is handed out is the head of the free chain, and it is vacant. -/
theorem vacancy?_eq_some_iff {i : Nat} {next : Option Nat} :
    l.vacancy? = some (i, next) ↔ l.freeHead = some i ∧ l.nextFree? i = some next := by
  unfold vacancy? nextFree?
  cases l.freeHead with
  | none => simp
  | some j =>
    simp only [Option.bind_some, Option.some.injEq]
    constructor
    · intro h
      split at h
      · rename_i next' hslot
        obtain ⟨rfl, rfl⟩ : j = i ∧ next' = next := by simpa using h
        simp [hslot, Slot.nextFree?]
      · simp at h
    · rintro ⟨rfl, h⟩
      rcases Option.bind_eq_some_iff.mp h with ⟨slot, hslot, hvacant⟩
      cases slot with
      | occupied node => simp [Slot.nextFree?] at hvacant
      | vacant next' =>
        obtain rfl : next' = next := by simpa [Slot.nextFree?] using hvacant
        simp [hslot]

theorem slot_lt_of_nextFree? {i : Nat} {next : Option Nat} (h : l.nextFree? i = some next) :
    i < l.slots.size := by
  apply Nat.lt_of_not_le
  intro hge
  rw [nextFree?, Array.getElem?_eq_none hge] at h
  simp at h

/-- The handle of the next new node names no live node. -/
theorem node?_freshHandle : l.node? l.freshHandle = none := by
  unfold freshHandle
  cases hvac : l.vacancy? with
  | none => simp [node?]
  | some vacancy =>
    -- a live node would occupy the slot that the free chain calls vacant
    rcases vacancy with ⟨i, next⟩
    have hvacant := ((l.vacancy?_eq_some_iff).mp hvac).2
    cases hnode : l.node? ⟨i⟩ with
    | none => exact hnode
    | some node => simp [l.nextFree?_of_node? hnode] at hvacant

theorem allocate_fst (value : α) : (l.allocate value).1 = l.freshHandle := by
  unfold allocate freshHandle
  cases l.vacancy? <;> rfl

theorem pushFront_fst (value : α) : (l.pushFront value).1 = l.freshHandle := l.allocate_fst value

/-! ## Answers -/

/-- A node that is taken out answers its value. -/
theorem remove_fst (h : Handle) : (l.remove h).1 = l.get? h := by
  unfold remove
  cases hvalue : l.get? h <;> rfl

/-- What leaves at the front is the first value. -/
theorem popFront_fst : (l.popFront).1 = l.front? := by
  unfold popFront front?
  cases l.head with
  | none => rfl
  | some h => exact l.remove_fst h

/-- What leaves at the back is the last value. -/
theorem popBack_fst : (l.popBack).1 = l.back? := by
  unfold popBack back?
  cases l.tail with
  | none => rfl
  | some h => exact l.remove_fst h

/-- A pop that answers nothing leaves the list as it was. -/
theorem popFront_of_none (hnone : l.front? = none) : l.popFront = (none, l) := by
  unfold popFront
  cases hhead : l.head with
  | none => rfl
  | some h =>
    have hdead : l.get? h = none := by rwa [front?, hhead] at hnone
    show l.remove h = _
    rw [remove, hdead]

theorem popBack_of_none (hnone : l.back? = none) : l.popBack = (none, l) := by
  unfold popBack
  cases htail : l.tail with
  | none => rfl
  | some h =>
    have hdead : l.get? h = none := by rwa [back?, htail] at hnone
    show l.remove h = _
    rw [remove, hdead]

theorem node?_allocate (value : α) (k : Handle) :
    (l.allocate value).2.node? k =
      if k = l.freshHandle then some ⟨value, none, none⟩ else l.node? k := by
  unfold allocate freshHandle
  cases hvac : l.vacancy? with
  | none =>
    -- the node is pushed behind the slab
    simp only [node?, Array.getElem?_push, Option.map_none, Option.getD_none]
    by_cases hk : k = ⟨l.slots.size⟩
    · simp [hk, Slot.node?]
    · have hslot : ¬ k.slot = l.slots.size := fun heq => hk (Handle.slot_inj.mp heq)
      simp [hk, hslot]
  | some vacancy =>
    -- the node is written to the head of the free chain, which lies inside the slab
    rcases vacancy with ⟨i, next⟩
    have hlt : i < l.slots.size :=
      l.slot_lt_of_nextFree? ((l.vacancy?_eq_some_iff).mp hvac).2
    simp only [node?, Array.getElem?_setIfInBounds, Option.map_some, Option.getD_some]
    by_cases hk : k = ⟨i⟩
    · simp [hk, hlt, Slot.node?]
    · have hslot : ¬ i = k.slot := fun heq => hk (Handle.slot_inj.mp heq.symm)
      simp [hk, hslot]

@[simp] theorem head_allocate (value : α) : (l.allocate value).2.head = l.head := by
  unfold allocate
  cases l.vacancy? <;> rfl

@[simp] theorem tail_allocate (value : α) : (l.allocate value).2.tail = l.tail := by
  unfold allocate
  cases l.vacancy? <;> rfl

@[simp] theorem length_allocate (value : α) : (l.allocate value).2.length = l.length := by
  unfold allocate
  cases l.vacancy? <;> rfl

theorem nextFree?_allocate (value : α) {i : Nat} (hi : i < l.slots.size)
    (hfresh : i ≠ l.freshHandle.slot) :
    (l.allocate value).2.nextFree? i = l.nextFree? i := by
  unfold freshHandle at hfresh
  unfold allocate
  cases hvac : l.vacancy? with
  | none =>
    have hne : ¬ i = l.slots.size := by omega
    simp [nextFree?, Array.getElem?_push, hne]
  | some vacancy =>
    rw [hvac] at hfresh
    have hne : ¬ vacancy.1 = i := fun heq => hfresh (by simp [heq])
    simp [nextFree?, hne]

theorem node?_release (h k : Handle) :
    (l.release h).node? k = if k = h then none else l.node? k := by
  simp only [node?, release, Array.getElem?_setIfInBounds]
  by_cases hk : k = h
  · subst hk
    by_cases hlt : k.slot < l.slots.size
    · simp [hlt, Slot.node?]
    · simp [hlt]
  · have hslot : ¬ h.slot = k.slot := fun heq => hk (Handle.slot_inj.mp heq.symm)
    simp [hk, hslot]

theorem nextFree?_release {h : Handle} (hlt : h.slot < l.slots.size) (i : Nat) :
    (l.release h).nextFree? i = if i = h.slot then some l.freeHead else l.nextFree? i := by
  simp only [nextFree?, release, Array.getElem?_setIfInBounds]
  by_cases hi : i = h.slot
  · simp [hi, hlt, Slot.nextFree?]
  · have hne : ¬ h.slot = i := fun heq => hi heq.symm
    simp [hi, hne]

end ArenaList

end CacheLab
