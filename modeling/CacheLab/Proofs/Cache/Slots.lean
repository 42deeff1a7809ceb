import CacheLab.Proofs.ArenaList.Recycling
import CacheLab.Proofs.Cache.Levels

/-!
# CacheLab.Proofs.Cache.Slots — the slots that a tracker needs

The order of a tracker stands in an arena list: a list of keys, or of buckets under `lfu`. Only two
steps can ask for a new slot there, inserting a key and, under `lfu`, an access.

* `Frequency.Consistent.size_access_le`: an access may make the bucket of the next count before it
  drops the old one, so for a moment there is one bucket more than there are keys.
* `Tracker.Within.insert` and its companions are the step lemmas: a bound on the slots that holds
  before a step holds after it (`Policy.slotLimit`).
* `Cache.Shows.within_perform` carries the bound through the calls of a cache, and
  `slots_recycled` is the result, together with what holds of every arena list.
-/

namespace CacheLab

open ArenaList

variable {κ ν : Type} [DecidableEq κ] [Hashable κ]

/-! ## Steps that need no new slot -/

namespace ArenaList

variable {α : Type} (l : ArenaList α)

theorem size_remove (h : Handle) : (l.remove h).2.slots.size = l.slots.size := by
  unfold remove
  cases l.get? h with
  | none => rfl
  | some value =>
    show ((l.unlink h).slots.setIfInBounds h.slot (.vacant (l.unlink h).freeHead)).size = l.slots.size
    rw [Array.size_setIfInBounds, (l.sameSlab_unlink h).size_eq]

theorem size_popFront : (l.popFront).2.slots.size = l.slots.size := by
  unfold popFront
  cases l.head with
  | none => rfl
  | some h => exact l.size_remove h

theorem size_popBack : (l.popBack).2.slots.size = l.slots.size := by
  unfold popBack
  cases l.tail with
  | none => rfl
  | some h => exact l.size_remove h

theorem size_moveToFront (h : Handle) : (l.moveToFront h).2.slots.size = l.slots.size := by
  unfold moveToFront
  split
  · split
    · rfl
    · exact ((l.sameSlab_unlink h).trans (sameSlab_splice _ none _ h)).size_eq
  · rfl

theorem size_modify (h : Handle) (f : α → α) : (l.modify h f).slots.size = l.slots.size :=
  (l.sameSlab_modifyNode h _).size_eq

variable {l}

/-- One edit grows the slab at most to one node more than there are. -/
theorem WellFormed.size_edit_le (hl : l.WellFormed) {e : Edit α} (he : e.isClear = false) :
    (l.edit e).2.slots.size ≤ max l.slots.size (l.length + 1) := by
  rcases hl with ⟨vacant, hs⟩
  rcases hs.size_edit he with ⟨hsize, hlength⟩
  rw [hsize]
  exact max_le_max_left _ hlength

end ArenaList

/-! ## Buckets -/

namespace Frequency

variable {t : Frequency κ} {key : κ}

theorem size_modifyKeys (t : Frequency κ) (h : Handle)
    (f : ArenaList κ → ArenaList κ) :
    (t.modifyKeys h f).buckets.slots.size = t.buckets.slots.size :=
  t.buckets.size_modify h _

theorem size_pushKey (t : Frequency κ) (h : Handle) (key : κ) :
    (t.pushKey h key).2.buckets.slots.size = t.buckets.slots.size := by
  unfold pushKey
  cases t.freshSlot? h with
  | none => rfl
  | some slot => exact t.size_modifyKeys h fun keys => (keys.pushFront key).2

theorem size_reindex (t : Frequency κ) (key : κ) (position : Position) :
    (t.reindex key position).buckets.slots.size = t.buckets.slots.size := by
  unfold reindex
  split <;> rfl

theorem size_releaseIfEmpty (t : Frequency κ) (h : Handle) :
    (t.releaseIfEmpty h).buckets.slots.size = t.buckets.slots.size := by
  unfold releaseIfEmpty
  split
  · exact t.buckets.size_remove h
  · rfl

theorem size_successorBucket_le (hl : t.buckets.WellFormed) (h : Handle) (count : Nat) :
    (t.successorBucket h count).2.buckets.slots.size ≤
      max t.buckets.slots.size (t.levels + 1) := by
  have hinsert : (t.buckets.insertAfter h { frequency := count }).2.slots.size ≤
      max t.buckets.slots.size (t.levels + 1) :=
    hl.size_edit_le (e := .insertAfter h { frequency := count }) rfl
  unfold successorBucket
  cases t.buckets.next? h with
  | none => exact hinsert
  | some next =>
    dsimp only
    split
    · exact Nat.le_max_left _ _
    · exact hinsert

theorem size_initialBucket_le (hl : t.buckets.WellFormed) :
    t.initialBucket.2.buckets.slots.size ≤ max t.buckets.slots.size (t.levels + 1) := by
  have hpush : (t.buckets.pushFront { frequency := initial }).2.slots.size ≤
      max t.buckets.slots.size (t.levels + 1) :=
    hl.size_edit_le (e := .pushFront { frequency := initial }) rfl
  unfold initialBucket
  cases t.buckets.head with
  | none => exact hpush
  | some front =>
    dsimp only
    split
    · exact Nat.le_max_left _ _
    · exact hpush

namespace Consistent

theorem wellFormed (ht : t.Consistent) : t.buckets.WellFormed := ht.layout.ladder.shape

/-- There are at most as many buckets as keys. -/
theorem levels_le (ht : t.Consistent) : t.levels ≤ t.size := by
  rw [(ht.spread (List.Perm.refl _)).2.2, ht.size_eq, ← List.length_map (f := (·.2))]
  exact List.toFinset_card_le _

/-- The bucket of the next count is made before the old one is dropped. -/
theorem size_access_le (ht : t.Consistent) (key : κ) :
    (t.access key).buckets.slots.size ≤ max t.buckets.slots.size (t.levels + 1) := by
  have hsame : t.buckets.slots.size ≤ max t.buckets.slots.size (t.levels + 1) :=
    Nat.le_max_left _ _
  unfold Frequency.access
  cases t.index[key]? with
  | none => exact hsame
  | some position =>
    dsimp only
    cases t.bucketFrequency? position.bucket with
    | none => exact hsame
    | some count =>
      dsimp only
      split
      · rw [size_modifyKeys]
        exact hsame
      · have hsuccessor := size_successorBucket_le ht.wellFormed position.bucket (count + 1)
        generalize t.successorBucket position.bucket (count + 1) = successor at hsuccessor ⊢
        rcases successor with ⟨target, t'⟩
        cases target with
        | none => exact hsuccessor
        | some target =>
          -- from here on buckets are written to and dropped, but none is made
          dsimp only
          split
          · rwa [size_releaseIfEmpty]
          · rename_i owned howned
            have hpushed := size_pushKey (t'.modifyKeys position.bucket fun keys =>
              (keys.remove position.slot).2) target owned
            rw [size_modifyKeys] at hpushed
            rw [← hpushed] at hsuccessor
            generalize (t'.modifyKeys position.bucket fun keys =>
              (keys.remove position.slot).2).pushKey target owned = pushed at hsuccessor ⊢
            rcases pushed with ⟨slot, t₃⟩
            cases slot with
            | none => exact hsuccessor
            | some slot =>
              dsimp only
              rwa [size_reindex, size_releaseIfEmpty]

theorem size_insert_le (ht : t.Consistent) (key : κ) :
    (t.insert key).buckets.slots.size ≤ max t.buckets.slots.size (t.levels + 1) := by
  unfold Frequency.insert
  split
  · exact ht.size_access_le key
  · have hpushed := size_pushKey t.initialBucket.2 t.initialBucket.1 key
    have hinitial := size_initialBucket_le ht.wellFormed
    rw [← hpushed] at hinitial
    dsimp only
    generalize t.initialBucket.2.pushKey t.initialBucket.1 key = pushed at hinitial ⊢
    rcases pushed with ⟨slot, t'⟩
    cases slot <;> exact hinitial

end Consistent

theorem size_evict (t : Frequency κ) : (t.evict).2.buckets.slots.size = t.buckets.slots.size := by
  unfold evict
  cases t.buckets.head with
  | none => rfl
  | some front =>
    dsimp only
    split
    · rfl
    · show ((t.modifyKeys _ _).releaseIfEmpty _).buckets.slots.size = _
      rw [size_releaseIfEmpty, size_modifyKeys]

theorem size_remove (t : Frequency κ) (key : κ) :
    (t.remove key).2.buckets.slots.size = t.buckets.slots.size := by
  unfold remove
  split
  · rfl
  · show (Frequency.releaseIfEmpty _ _).buckets.slots.size = _
    rw [size_releaseIfEmpty, size_modifyKeys]

end Frequency

/-! ## Trackers -/

/-- The most slots that the order of a cache of `capacity` entries ever has. -/
def Policy.slotLimit (policy : Policy) (capacity : Nat) : Nat :=
  match policy with
  | .lru | .fifo => capacity
  | .lfu => capacity + 1

namespace Tracker

variable {t : Tracker κ} {capacity : Nat}

/-- The slots of the list of keys, or of the list of buckets under `lfu`. -/
def slots : Tracker κ → Nat
  | lru t => t.order.slots.size
  | fifo t => t.queue.slots.size
  | lfu t => t.buckets.slots.size

/-- The slots are within the limit of a cache of `capacity` entries. -/
def Within (capacity : Nat) (t : Tracker κ) : Prop := t.slots ≤ t.policy.slotLimit capacity

namespace Within

theorem new (policy : Policy) : (Tracker.new policy : Tracker κ).Within capacity := by
  cases policy <;> exact Nat.zero_le _

theorem access (hw : t.Within capacity) (ht : t.Consistent) (hsize : t.size ≤ capacity)
    (key : κ) : (t.access key).Within capacity := by
  cases t with
  | lru t =>
    show (t.access key).order.slots.size ≤ capacity
    unfold Recency.access
    cases t.index[key]? with
    | none => exact hw
    | some h =>
      show (t.order.moveToFront h).2.slots.size ≤ capacity
      rw [size_moveToFront]
      exact hw
  | fifo t => exact hw
  | lfu t =>
    have ht : t.Consistent := ht
    have hlevels := ht.levels_le
    have hslots := ht.size_access_le key
    have hsize : t.size ≤ capacity := hsize
    have hw : t.buckets.slots.size ≤ capacity + 1 := hw
    show (t.access key).buckets.slots.size ≤ capacity + 1
    omega

/-- Another key has to fit into the cache. -/
theorem insert (hw : t.Within capacity) (ht : t.Consistent) (hsize : t.size < capacity)
    (key : κ) : (t.insert key).Within capacity := by
  cases t with
  | lru t =>
    have ht : t.Consistent := ht
    have hlength : t.order.length < capacity := ht.length_eq ▸ hsize
    have hpush : (t.order.pushFront key).2.slots.size ≤ max t.order.slots.size (t.order.length + 1) :=
      ht.wellFormed.size_edit_le (e := .pushFront key) rfl
    have hw : t.order.slots.size ≤ capacity := hw
    show (t.insert key).order.slots.size ≤ capacity
    unfold Recency.insert
    cases t.index[key]? with
    | none =>
      show (t.order.pushFront key).2.slots.size ≤ capacity
      omega
    | some h =>
      show (t.order.moveToFront h).2.slots.size ≤ capacity
      rw [size_moveToFront]
      exact hw
  | fifo t =>
    have ht : t.Consistent := ht
    have hlength : t.queue.length < capacity := ht.length_eq ▸ hsize
    have hpush : (t.queue.pushBack key).2.slots.size ≤ max t.queue.slots.size (t.queue.length + 1) :=
      ht.wellFormed.size_edit_le (e := .pushBack key) rfl
    have hw : t.queue.slots.size ≤ capacity := hw
    show (t.insert key).queue.slots.size ≤ capacity
    unfold Arrival.insert
    split
    · exact hw
    · show (t.queue.pushBack key).2.slots.size ≤ capacity
      omega
  | lfu t =>
    have ht : t.Consistent := ht
    have hlevels := ht.levels_le
    have hslots := ht.size_insert_le key
    have hsize : t.size < capacity := hsize
    have hw : t.buckets.slots.size ≤ capacity + 1 := hw
    show (t.insert key).buckets.slots.size ≤ capacity + 1
    omega

theorem evict (hw : t.Within capacity) : (t.evict).2.Within capacity := by
  cases t with
  | lru t =>
    show (t.evict).2.order.slots.size ≤ capacity
    have hpopped : (t.order.popBack).2.slots.size ≤ capacity := by
      rw [size_popBack]
      exact hw
    unfold Recency.evict
    generalize t.order.popBack = popped at hpopped ⊢
    rcases popped with ⟨key, order⟩
    cases key <;> exact hpopped
  | fifo t =>
    show (t.evict).2.queue.slots.size ≤ capacity
    have hpopped : (t.queue.popFront).2.slots.size ≤ capacity := by
      rw [size_popFront]
      exact hw
    unfold Arrival.evict
    generalize t.queue.popFront = popped at hpopped ⊢
    rcases popped with ⟨key, queue⟩
    cases key <;> exact hpopped
  | lfu t =>
    show (t.evict).2.buckets.slots.size ≤ capacity + 1
    rw [t.size_evict]
    exact hw

theorem remove (hw : t.Within capacity) (key : κ) : (t.remove key).2.Within capacity := by
  cases t with
  | lru t =>
    show (t.remove key).2.order.slots.size ≤ capacity
    unfold Recency.remove
    cases t.index[key]? with
    | none => exact hw
    | some h =>
      show (t.order.remove h).2.slots.size ≤ capacity
      rw [ArenaList.size_remove]
      exact hw
  | fifo t =>
    show (t.remove key).2.queue.slots.size ≤ capacity
    unfold Arrival.remove
    cases t.index[key]? with
    | none => exact hw
    | some h =>
      show (t.queue.remove h).2.slots.size ≤ capacity
      rw [ArenaList.size_remove]
      exact hw
  | lfu t =>
    show (t.remove key).2.buckets.slots.size ≤ capacity + 1
    rw [t.size_remove]
    exact hw

theorem clear (t : Tracker κ) : t.clear.Within capacity := by
  rw [clear_eq]
  exact new t.policy

end Within

end Tracker

/-! ## Caches -/

namespace Cache

variable {c : Cache κ ν} {config : Config} {v : View κ ν}

theorem tracker_evict (c : Cache κ ν) : (c.evict).2.tracker = (c.tracker.evict).2 := by
  unfold evict
  rcases c.tracker.evict with ⟨victim, tracker⟩
  cases victim with
  | none => rfl
  | some key =>
    dsimp only
    rcases c.store.remove key with ⟨value, store⟩
    cases value <;> rfl

theorem tracker_touch (c : Cache κ ν) (key : κ) :
    (c.touch key).tracker = if c.policy.tracksAccess then c.tracker.access key else c.tracker := by
  unfold touch
  split <;> rfl

/-- An access to a key of a cache that is not over-full. -/
theorem within_touch {capacity : Nat} (hw : c.tracker.Within capacity)
    (ht : c.tracker.Consistent) (hsize : c.tracker.size ≤ capacity) (key : κ) :
    (c.touch key).tracker.Within capacity := by
  rw [tracker_touch]
  split
  · exact hw.access ht hsize key
  · exact hw

namespace Shows

/-- The tracker holds as many keys as the cache. -/
theorem tracker_size (hc : c.Shows config v) : c.tracker.size = v.queue.length := by
  rw [hc.consistent.size_eq, hc.queue_eq]

theorem tracker_size_le (hc : c.Shows config v) (hv : v.Sound config) :
    c.tracker.size ≤ config.capacity :=
  hc.tracker_size ▸ hv.length_le

theorem within_put (hc : c.Shows config v) (hv : v.Sound config)
    (hw : c.tracker.Within config.capacity) (key : κ) (value : ν) :
    (c.put key value).2.tracker.Within config.capacity := by
  unfold Cache.put
  cases c.peek? key with
  | some old =>
    exact within_touch (c := { c with store := c.store.insert key value }) hw hc.consistent
      (hc.tracker_size_le hv) key
  | none =>
    -- there is room for one more key once the victim is out
    rcases hc.makeRoom hv with ⟨-, hroom⟩
    have hlength := hv.makeRoom.2.1
    rw [← hroom.tracker_size] at hlength
    have hwithin : (if c.capacity ≤ c.size then c.evict else (none, c)).2.tracker.Within
        config.capacity := by
      split
      · rw [tracker_evict]
        exact hw.evict
      · exact hw
    exact hwithin.insert hroom.consistent hlength key

theorem within_remove (hw : c.tracker.Within config.capacity) (key : κ) :
    (c.remove key).2.tracker.Within config.capacity := by
  unfold Cache.remove
  cases c.peek? key with
  | none => exact hw
  | some value => exact hw.remove key

/-- No call leaves the tracker with more slots than its policy allows. -/
theorem within_perform (hc : c.Shows config v) (hv : v.Sound config)
    (hw : c.tracker.Within config.capacity) (call : Call κ ν) :
    (c.perform call).2.tracker.Within config.capacity := by
  have hsize := hc.tracker_size_le hv
  cases call with
  | put key value => exact hc.within_put hv hw key value
  | get key =>
    show (c.get key).2.tracker.Within config.capacity
    unfold Cache.get
    cases c.peek? key with
    | none => exact hw
    | some value => exact within_touch hw hc.consistent hsize key
  | modify key f =>
    show (c.modify key f).2.tracker.Within config.capacity
    unfold Cache.modify
    cases c.peek? key with
    | none => exact hw
    | some value => exact within_touch hw hc.consistent hsize key
  | remove key => exact within_remove hw key
  | erase key => exact within_remove hw key
  | pop =>
    show (c.evict).2.tracker.Within config.capacity
    rw [tracker_evict]
    exact hw.evict
  | clear => exact Tracker.Within.clear c.tracker
  | contains key => exact hw
  | peek key => exact hw
  | victim => exact hw
  | frequency key => exact hw

theorem within_run (hc : c.Shows config v) (hv : v.Sound config)
    (hw : c.tracker.Within config.capacity) (calls : List (Call κ ν)) :
    (c.run calls).2.tracker.Within config.capacity := by
  induction calls generalizing c v with
  | nil => exact hw
  | cons call calls ih =>
    exact ih (hc.perform hv call).2 (hv.perform call) (hc.within_perform hv hw call)

end Shows

/-- An arena list never has more slots than its peak: it recycles the vacant ones, the one freed last
first. So a cache of `capacity` entries keeps its order in `capacity` slots, and under `lfu`, where
the next bucket is made before the old one is dropped, in one slot more. -/
theorem slots_recycled :
    (∀ (α : Type) (edits : List (Edit α)),
      after (Edit.sinceClear edits) = after edits ∧
        Recycles (after edits) (Edit.sinceClear edits)) ∧
      ∀ (κ ν : Type) [DecidableEq κ] [Hashable κ] (config : Config) (calls : List (Call κ ν)),
        let c := ((new config : Cache κ ν).run calls).2
        c.tracker.policy = config.policy ∧
          match c.tracker with
          | .lru t => t.order.slots.size ≤ config.capacity
          | .fifo t => t.queue.slots.size ≤ config.capacity
          | .lfu t => t.buckets.slots.size ≤ config.capacity + 1 := by
  refine ⟨fun α edits => ⟨after_sinceClear edits, after_recycles edits⟩, ?_⟩
  intro κ ν _ _ config calls c
  have hwithin : c.tracker.Within config.capacity :=
    (Shows.new config).within_run View.Sound.empty (Tracker.Within.new config.policy) calls
  refine ⟨((Sound.new config).run calls).consistent.2, ?_⟩
  generalize c.tracker = t at hwithin ⊢
  cases t with
  | lru t => exact hwithin
  | fifo t => exact hwithin
  | lfu t => exact hwithin

-- an access to the only key of a full cache needs both slots
example : ((new ⟨1, .lfu, by decide⟩ : Cache Nat Nat).run [.put 0 0, .get 0]).2.tracker.slots = 2 := by
  decide +kernel

end Cache

end CacheLab
