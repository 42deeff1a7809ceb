/-!
# CacheLab.ArenaList — doubly linked lists in a slab of slots

An `ArenaList` keeps its nodes in one array of slots and links them by
*handles*, the numbers of their slots:

* a slot is *occupied* by a node with its two links, or *vacant* and part of a
  free chain that starts at `freeHead`; the slot freed last is taken first,
  and the array grows only when no slot is vacant;
* `pushFront`, `pushBack` and `insertAfter` answer the handle of the new node,
  which names it until `remove` takes the node away;
* an operation given a handle that names no live node answers `none` or
  `false` and leaves the list as it was.

`entries` is the view of a list: its pairs of handle and value from front to
back. `Cursor` reads the same sequence one value at a time.
-/

namespace CacheLab

/-- The name of a node: the number of the slot that holds it. -/
structure Handle where
  slot : Nat
deriving DecidableEq, Repr

/-- A value with the handles of its two neighbours. -/
structure Node (α : Type) where
  value : α
  prev : Option Handle
  next : Option Handle
deriving Repr

/-- A place in the slab: it holds a node, or it waits in the free chain. -/
inductive Slot (α : Type) where
  | occupied (node : Node α)
  | vacant (nextFree : Option Nat)
deriving Repr

/-- The node of an occupied slot. -/
def Slot.node? {α : Type} : Slot α → Option (Node α)
  | occupied node => some node
  | vacant _ => none

/-- Changes the node of an occupied slot; a vacant slot stays as it is. -/
def Slot.mapNode {α : Type} (f : Node α → Node α) : Slot α → Slot α
  | occupied node => occupied (f node)
  | vacant next => vacant next

/-- A list of values whose nodes live in `slots`, linked from `head` to `tail`. -/
structure ArenaList (α : Type) where
  slots : Array (Slot α) := #[]
  freeHead : Option Nat := none
  head : Option Handle := none
  tail : Option Handle := none
  length : Nat := 0
deriving Repr

namespace ArenaList

variable {α : Type}

/-- The list with no nodes and no slots. -/
def empty : ArenaList α := {}

instance : EmptyCollection (ArenaList α) := ⟨empty⟩

instance : Inhabited (ArenaList α) := ⟨empty⟩

/-! ## Reading -/

/-- Whether the list holds no node. -/
def isEmpty (l : ArenaList α) : Bool := l.length == 0

/-- The live node that `h` names. -/
def node? (l : ArenaList α) (h : Handle) : Option (Node α) :=
  l.slots[h.slot]?.bind Slot.node?

/-- Whether `h` names a live node. -/
def contains (l : ArenaList α) (h : Handle) : Bool := (l.node? h).isSome

/-- The value of the node that `h` names. -/
def get? (l : ArenaList α) (h : Handle) : Option α := (l.node? h).map (·.value)

/-- The handle of the node behind `h`. -/
def next? (l : ArenaList α) (h : Handle) : Option Handle := (l.node? h).bind (·.next)

/-- The handle of the node before `h`. -/
def prev? (l : ArenaList α) (h : Handle) : Option Handle := (l.node? h).bind (·.prev)

/-- The first value. -/
def front? (l : ArenaList α) : Option α := l.head.bind l.get?

/-- The last value. -/
def back? (l : ArenaList α) : Option α := l.tail.bind l.get?

/-- Follows the `next` links from `start` over at most `fuel` nodes. -/
def walk (l : ArenaList α) : Nat → Option Handle → List (Handle × α)
  | 0, _ => []
  | _ + 1, none => []
  | fuel + 1, some h =>
    match l.node? h with
    | none => []
    | some node => (h, node.value) :: l.walk fuel node.next

/-- The pairs of handle and value from front to back. There are at most as
many nodes as slots, so the walk never stops early. -/
def entries (l : ArenaList α) : List (Handle × α) := l.walk l.slots.size l.head

/-- The values from front to back. -/
def toList (l : ArenaList α) : List α := l.entries.map (·.2)

/-! ## Slots -/

/-- Changes the node that `h` names, if there is one. -/
def modifyNode (l : ArenaList α) (h : Handle) (f : Node α → Node α) : ArenaList α :=
  { l with slots := l.slots.modify h.slot (Slot.mapNode f) }

/-- The slot that was freed last, with the free chain behind it. -/
def vacancy? (l : ArenaList α) : Option (Nat × Option Nat) :=
  l.freeHead.bind fun i =>
    match l.slots[i]? with
    | some (.vacant next) => some (i, next)
    | _ => none

/-- The handle that the next new node gets. -/
def freshHandle (l : ArenaList α) : Handle := ⟨(l.vacancy?.map (·.1)).getD l.slots.size⟩

/-- Puts an unlinked node into the slot freed last, or into a new last slot
when none is vacant. -/
def allocate (l : ArenaList α) (value : α) : Handle × ArenaList α :=
  let fresh := Slot.occupied ⟨value, none, none⟩
  match l.vacancy? with
  | some (i, next) => (⟨i⟩, { l with slots := l.slots.setIfInBounds i fresh, freeHead := next })
  | none => (⟨l.slots.size⟩, { l with slots := l.slots.push fresh })

/-- Makes the slot of `h` the first of the free chain. -/
def release (l : ArenaList α) (h : Handle) : ArenaList α :=
  { l with slots := l.slots.setIfInBounds h.slot (.vacant l.freeHead), freeHead := some h.slot }

/-! ## Links -/

/-- Makes `target` the node that follows `before`, or the first node of the
list when `before` names no live node. -/
def setNext (l : ArenaList α) (before target : Option Handle) : ArenaList α :=
  match before.filter l.contains with
  | some h => l.modifyNode h fun node => { node with next := target }
  | none => { l with head := target }

/-- Makes `target` the node that precedes `after`, or the last node of the
list when `after` names no live node. -/
def setPrev (l : ArenaList α) (after target : Option Handle) : ArenaList α :=
  match after.filter l.contains with
  | some h => l.modifyNode h fun node => { node with prev := target }
  | none => { l with tail := target }

/-- Links the node `h` between two neighbours; a missing neighbour is the end
of the list on that side. -/
def splice (l : ArenaList α) (before after : Option Handle) (h : Handle) : ArenaList α :=
  ((l.modifyNode h fun node => { node with prev := before, next := after }).setNext
    before (some h)).setPrev after (some h)

/-- Joins the neighbours of the live node `h` to each other and clears its own
links. -/
def unlink (l : ArenaList α) (h : Handle) : ArenaList α :=
  match l.node? h with
  | none => l
  | some node =>
    ((l.setNext node.prev node.next).setPrev node.next node.prev).modifyNode h
      fun node => { node with prev := none, next := none }

/-! ## Operations -/

/-- Adds `value` at the front. -/
def pushFront (l : ArenaList α) (value : α) : Handle × ArenaList α :=
  let (h, l) := l.allocate value
  let l := l.splice none l.head h
  (h, { l with length := l.length + 1 })

/-- Adds `value` at the back. -/
def pushBack (l : ArenaList α) (value : α) : Handle × ArenaList α :=
  let (h, l) := l.allocate value
  let l := l.splice l.tail none h
  (h, { l with length := l.length + 1 })

/-- Adds `value` directly behind the live node `anchor`. -/
def insertAfter (l : ArenaList α) (anchor : Handle) (value : α) :
    Option Handle × ArenaList α :=
  if l.contains anchor then
    let (h, l) := l.allocate value
    let l := l.splice (some anchor) (l.next? anchor) h
    (some h, { l with length := l.length + 1 })
  else
    (none, l)

/-- Takes the live node `h` out of the list and answers its value. -/
def remove (l : ArenaList α) (h : Handle) : Option α × ArenaList α :=
  match l.get? h with
  | none => (none, l)
  | some value =>
    let l := (l.unlink h).release h
    (some value, { l with length := l.length - 1 })

/-- Removes the first node. -/
def popFront (l : ArenaList α) : Option α × ArenaList α :=
  match l.head with
  | none => (none, l)
  | some h => l.remove h

/-- Removes the last node. -/
def popBack (l : ArenaList α) : Option α × ArenaList α :=
  match l.tail with
  | none => (none, l)
  | some h => l.remove h

/-- Moves the live node `h` to the front; `false` if `h` names no live node. -/
def moveToFront (l : ArenaList α) (h : Handle) : Bool × ArenaList α :=
  if l.contains h then
    if l.head = some h then
      (true, l)
    else
      let l := l.unlink h
      (true, l.splice none l.head h)
  else
    (false, l)

/-- Changes the value of the node that `h` names, if there is one. -/
def modify (l : ArenaList α) (h : Handle) (f : α → α) : ArenaList α :=
  l.modifyNode h fun node => { node with value := f node.value }

/-- Replaces the value of the live node `h` and answers the old one. -/
def set (l : ArenaList α) (h : Handle) (value : α) : Option α × ArenaList α :=
  (l.get? h, l.modify h fun _ => value)

/-- Drops every node and every slot. -/
def clear (_ : ArenaList α) : ArenaList α := empty

/-! ## Cursors -/

/-- A place in a list from which the rest is read, with the number of values
that are still to come. -/
structure Cursor (α : Type) where
  list : ArenaList α
  position : Option Handle
  remaining : Nat

/-- The cursor before the first value. -/
def iter (l : ArenaList α) : Cursor α := ⟨l, l.head, l.length⟩

namespace Cursor

/-- The value at the cursor and the cursor behind it. -/
def next? (c : Cursor α) : Option (α × Cursor α) :=
  match c.position.bind c.list.node? with
  | none => none
  | some node => some (node.value, { c with position := node.next, remaining := c.remaining - 1 })

/-- The least and the greatest number of values still to come. -/
def sizeHint (c : Cursor α) : Nat × Option Nat := (c.remaining, some c.remaining)

/-- Reads up to `n` values. -/
def take (c : Cursor α) : Nat → List α × Cursor α
  | 0 => ([], c)
  | n + 1 =>
    match c.next? with
    | none => ([], c)
    | some (value, c) =>
      let (values, c) := c.take n
      (value :: values, c)

/-- Every value from the cursor to the end. -/
def rest (c : Cursor α) : List α := (c.list.walk c.list.slots.size c.position).map (·.2)

/-- How a cursor is shown. -/
def describe (c : Cursor α) : String := s!"Iter \x7b remaining: {c.remaining} \x7d"

end Cursor

end ArenaList

end CacheLab
