import CacheLab.Proofs.Tracker.Ladder
import CacheLab.Proofs.Index
import CacheLab.Proofs.Pairs

/-!
# CacheLab.Proofs.Tracker.Frequency — the order by access count

`Frequency.Consistent` is the invariant of the tracker: its buckets are a
`Ladder`, none of them is empty, and the index names exactly the listed keys,
each at its own node. Between the steps of one operation a bucket may be empty
and the index may lag behind, so the steps are stated on the ladder alone and
the invariant is put together again at the end.

Under the invariant each operation is one on the plain queue of keys with
their counts (`Frequency.queue`), and none of its branches for a missing
bucket, node or victim is ever taken.
-/

namespace CacheLab.Frequency

open ArenaList

variable {κ : Type} [DecidableEq κ] [Hashable κ] {t : Frequency κ} {rungs as bs : Rungs κ}
  {b : Bucket κ} {h : Handle} {key : κ} {position : Position}

/-- The keys in the order in which they leave, each with its access count. -/
def queue (t : Frequency κ) : EvictionQueue κ := Rungs.queue t.buckets.entries

theorem Ladder.queue_eq (hl : Ladder t.buckets rungs) : t.queue = Rungs.queue rungs := by
  rw [queue, hl.entries_eq]

theorem Ladder.bucketFrequency?_eq (hl : Ladder t.buckets (as ++ (h, b) :: bs)) :
    t.bucketFrequency? h = some b.frequency := by
  rw [bucketFrequency?, hl.get?_eq]
  rfl

theorem releaseIfEmpty_index (t : Frequency κ) (h : Handle) :
    (t.releaseIfEmpty h).index = t.index := by
  unfold releaseIfEmpty
  split <;> rfl

theorem releaseIfEmpty_withIndex (t : Frequency κ) (h : Handle) (index : Std.HashMap κ Position) :
    { t with index }.releaseIfEmpty h = { t.releaseIfEmpty h with index } := by
  unfold releaseIfEmpty
  split <;> rfl

theorem reindex_of_contains (hkey : t.index.contains key = true) (position : Position) :
    t.reindex key position = { t with index := t.index.insert key position } := by
  rw [reindex, if_pos hkey]

/-! ## Steps on the buckets -/

/-- A key is taken out of its bucket. -/
theorem Ladder.take {s : Handle} {xs ys : List (Handle × κ)}
    (hl : Ladder t.buckets (as ++ (h, b) :: bs)) (hb : b.keys.entries = xs ++ (s, key) :: ys) :
    ∃ b', Ladder (t.modifyKeys h fun keys => (keys.remove s).2).buckets (as ++ (h, b') :: bs) ∧
      b'.keys.entries = xs ++ ys ∧ b'.frequency = b.frequency := by
  rcases hl.wellFormed_keys.remove hb with ⟨hwellFormed, hentries⟩
  have hladder := hl.mapKeys (fun keys => (keys.remove s).2) hwellFormed
  exact ⟨b.mapKeys fun keys => (keys.remove s).2, hladder, hentries, rfl⟩

/-- A key is put at the front of a bucket; the index waits. -/
theorem Ladder.pushKey (hl : Ladder t.buckets (as ++ (h, b) :: bs)) (key : κ) :
    ∃ b' slot t', t.pushKey h key = (some slot, t') ∧ t'.index = t.index ∧
      Ladder t'.buckets (as ++ (h, b') :: bs) ∧
      b'.keys.entries = (slot, key) :: b.keys.entries ∧ b'.frequency = b.frequency := by
  rcases hl.wellFormed_keys.pushFront key with ⟨hwellFormed, hentries⟩
  have hslot : t.freshSlot? h = some b.keys.freshHandle := by
    rw [freshSlot?, hl.get?_eq]
    rfl
  have hpush : t.pushKey h key =
      (some b.keys.freshHandle, t.modifyKeys h fun keys => (keys.pushFront key).2) := by
    unfold Frequency.pushKey
    rw [hslot]
  rw [pushFront_fst] at hentries
  have hladder := hl.mapKeys (fun keys => (keys.pushFront key).2) hwellFormed
  exact ⟨b.mapKeys fun keys => (keys.pushFront key).2, b.keys.freshHandle, _, hpush, rfl, hladder,
    hentries, rfl⟩

/-- The bucket of the next count is the next bucket or a new one. -/
theorem Ladder.successorBucket (hl : Ladder t.buckets (as ++ (h, b) :: bs))
    (hlimit : b.frequency < limit) :
    ∃ target nb bs' t', t.successorBucket h (b.frequency + 1) = (some target, t') ∧
      t'.index = t.index ∧ Ladder t'.buckets (as ++ (h, b) :: (target, nb) :: bs') ∧
      nb.frequency = b.frequency + 1 ∧
      Rungs.queue ((target, nb) :: bs') = Rungs.queue bs ∧
      Rungs.positions ((target, nb) :: bs') = Rungs.positions bs ∧ ∀ p ∈ bs', p ∈ bs := by
  rcases hl.shape with ⟨vacant, hs⟩
  unfold Frequency.successorBucket
  rw [hs.next?_eq]
  cases bs with
  | nil =>
    -- the bucket is the last one
    obtain ⟨target, htarget, hladder⟩ :=
      hl.insertAfter (n := b.frequency + 1) (by omega) (by simp [Rungs.counts]) hlimit
    exact ⟨target, { frequency := b.frequency + 1 }, [], _, Prod.ext htarget rfl, rfl, hladder, rfl,
      rfl, rfl, fun _ hp => hp⟩
  | cons next bs =>
    have hladder : Ladder t.buckets ((as ++ [(h, b)]) ++ next :: bs) := by
      rwa [← List.append_cons]
    have hnext := hladder.bucketFrequency?_eq
    have hlow : b.frequency < next.2.frequency := hl.lt_of_behind _ List.mem_cons_self
    have hbehind := hladder.lt_of_behind
    simp only [List.head?_cons, Option.map_some, hnext, Option.some.injEq]
    by_cases heq : next.2.frequency = b.frequency + 1
    · rw [if_pos heq]
      exact ⟨next.1, next.2, bs, t, rfl, rfl, hl, heq, rfl, rfl,
        fun _ hp => List.mem_cons_of_mem _ hp⟩
    · -- the next bucket has a greater count, so the new one fits in between
      have hgt : ∀ m ∈ Rungs.counts (next :: bs), b.frequency + 1 < m := by
        intro m hm
        rcases List.mem_cons.mp hm with rfl | hm
        · show b.frequency + 1 < next.2.frequency
          omega
        · have hlt := hbehind m hm
          omega
      obtain ⟨target, htarget, hladder⟩ :=
        hl.insertAfter (n := b.frequency + 1) (by omega) hgt hlimit
      rw [if_neg heq]
      exact ⟨target, { frequency := b.frequency + 1 }, next :: bs, _, Prod.ext htarget rfl, rfl,
        hladder, rfl, rfl, rfl, fun _ hp => hp⟩

/-- The bucket of new keys is the first bucket or a new one. -/
theorem Ladder.initialBucket (hl : Ladder t.buckets rungs) :
    ∃ nb bs, t.initialBucket.2.index = t.index ∧
      Ladder t.initialBucket.2.buckets ((t.initialBucket.1, nb) :: bs) ∧
      nb.frequency = initial ∧
      Rungs.queue ((t.initialBucket.1, nb) :: bs) = Rungs.queue rungs ∧
      Rungs.positions ((t.initialBucket.1, nb) :: bs) = Rungs.positions rungs ∧
      ∀ p ∈ bs, p ∈ rungs := by
  rcases hl.shape with ⟨vacant, hs⟩
  unfold Frequency.initialBucket
  rw [hs.head_eq_head?]
  cases rungs with
  | nil =>
    exact ⟨{ frequency := initial }, [], rfl, hl.pushFront (by simp [Rungs.counts]), rfl, rfl, rfl,
      fun _ hp => hp⟩
  | cons front bs =>
    have hladder : Ladder t.buckets ([] ++ front :: bs) := hl
    have hfront := hladder.bucketFrequency?_eq
    simp only [List.head?_cons, Option.map_some, hfront, Option.some.injEq]
    by_cases heq : front.2.frequency = initial
    · rw [if_pos heq]
      exact ⟨front.2, bs, rfl, hl, heq, rfl, rfl, fun _ hp => List.mem_cons_of_mem _ hp⟩
    · -- no count is lower than the initial one, so the new bucket is the first
      have hinitial := hladder.bounded_middle.1
      have hbehind := hladder.lt_of_behind
      have hgt : ∀ m ∈ Rungs.counts (front :: bs), initial < m := by
        intro m hm
        rcases List.mem_cons.mp hm with rfl | hm
        · show initial < front.2.frequency
          omega
        · have hlt := hbehind m hm
          omega
      rw [if_neg heq]
      exact ⟨{ frequency := initial }, front :: bs, rfl, hl.pushFront hgt, rfl, rfl, rfl,
        fun _ hp => hp⟩

/-! ## The invariant -/

/-- The buckets are a ladder of these rungs and the index names their keys. -/
structure Layout (t : Frequency κ) (rungs : Rungs κ) : Prop where
  ladder : Ladder t.buckets rungs
  indexed : Indexed t.index (Rungs.positions rungs)

/-- The invariant: besides, no bucket is empty. -/
structure Consistent (t : Frequency κ) : Prop where
  layout : Layout t t.buckets.entries
  occupied : ∀ p ∈ t.buckets.entries, p.2.keys.entries ≠ []

theorem consistent_empty : (empty : Frequency κ).Consistent where
  layout := ⟨Ladder.empty, Indexed.empty⟩
  occupied _ hp := absurd hp List.not_mem_nil

namespace Layout

variable {xs ys : List (Handle × κ)}

theorem consistent (hl : Layout t rungs) (hoccupied : ∀ p ∈ rungs, p.2.keys.entries ≠ []) :
    t.Consistent ∧ t.queue = Rungs.queue rungs := by
  have hentries := hl.ladder.entries_eq
  refine ⟨⟨?_, ?_⟩, hl.ladder.queue_eq⟩
  · rwa [hentries]
  · rwa [hentries]

theorem keys_nodup (hl : Layout t rungs) : (Rungs.queue rungs).keys.Nodup :=
  (Rungs.keys_perm rungs).nodup_iff.mpr hl.indexed.keys_nodup

theorem mem_keys_iff (hl : Layout t rungs) :
    key ∈ (Rungs.queue rungs).keys ↔ t.index.contains key = true := by
  rw [(Rungs.keys_perm rungs).mem_iff, hl.indexed.contains_iff]

/-- The bucket and the node of an indexed key. -/
theorem split (hl : Layout t rungs) (hget : t.index[key]? = some position) :
    ∃ as b bs xs ys, rungs = as ++ (position.bucket, b) :: bs ∧
      b.keys.entries = xs ++ (position.slot, key) :: ys := by
  have hmem := (hl.indexed.getElem?_eq_some_iff key position).mp hget
  rcases List.mem_flatMap.mp hmem with ⟨p, hp, hposition⟩
  rcases List.mem_map.mp hposition with ⟨q, hq, heq⟩
  rcases Prod.mk.inj heq with ⟨rfl, rfl⟩
  rcases List.append_of_mem hp with ⟨as, bs, has⟩
  rcases List.append_of_mem hq with ⟨xs, ys, hxs⟩
  exact ⟨as, p.2, bs, xs, ys, has, hxs⟩

/-- What the queue knows of a key in a bucket. -/
theorem without_eq {b' : Bucket κ} (hl : Layout t (as ++ (h, b) :: bs)) {s : Handle}
    (hb : b.keys.entries = xs ++ (s, key) :: ys) (hb' : b'.keys.entries = xs ++ ys)
    (hcount : b'.frequency = b.frequency) :
    (Rungs.queue (as ++ (h, b) :: bs)).lookup key = some b.frequency ∧
      (Rungs.queue (as ++ (h, b) :: bs)).without key = Rungs.queue (as ++ (h, b') :: bs) := by
  have hnodup := hl.keys_nodup
  rcases Rungs.queue_take hb hb' hcount with ⟨before, behind, hqueue, hqueue'⟩
  rw [hqueue] at hnodup ⊢
  rw [hqueue']
  constructor
  · rw [Pairs.lookup_eq_some_iff_mem hnodup]
    simp
  · have hmiddle : ((before ++ (key, b.frequency) :: behind).map (·.1)).Perm
        (key :: (before ++ behind).map (·.1)) := List.perm_middle.map _
    exact Pairs.filter_middle (List.nodup_cons.mp (hmiddle.nodup_iff.mp hnodup)).1

/-- Dropping the one bucket that may be empty. -/
theorem release (hl : Layout t (as ++ (h, b) :: bs))
    (hoccupied : ∀ p ∈ as ++ bs, p.2.keys.entries ≠ []) :
    (t.releaseIfEmpty h).Consistent ∧
      (t.releaseIfEmpty h).queue = Rungs.queue (as ++ (h, b) :: bs) := by
  unfold releaseIfEmpty
  rw [hl.ladder.get?_eq, Option.any_some]
  by_cases hempty : b.keys.isEmpty = true
  · -- the empty bucket holds no key, so neither reading of the rungs misses it
    have hnil : b.keys.entries = [] := hl.ladder.wellFormed_keys.isEmpty_iff.mp hempty
    have hqueue : Rungs.queue (as ++ (h, b) :: bs) = Rungs.queue (as ++ bs) := by
      rw [Rungs.queue_middle, hnil, Rungs.queue, Rungs.queue, Rungs.queue, List.flatMap_append]
      rfl
    have hpositions : Rungs.positions (as ++ (h, b) :: bs) = Rungs.positions (as ++ bs) := by
      rw [Rungs.positions_middle, hnil, Rungs.positions, Rungs.positions, Rungs.positions,
        List.flatMap_append]
      rfl
    have hindexed := hl.indexed
    rw [hpositions] at hindexed
    rw [if_pos hempty, hqueue]
    have hlayout : Layout { t with buckets := (t.buckets.remove h).2 } (as ++ bs) :=
      ⟨hl.ladder.remove, hindexed⟩
    exact hlayout.consistent hoccupied
  · rw [if_neg hempty]
    apply hl.consistent
    intro p hp
    rcases List.mem_cons.mp (List.perm_middle.mem_iff.mp hp) with rfl | hother
    · exact fun hnil => hempty (hl.ladder.wellFormed_keys.isEmpty_iff.mpr hnil)
    · exact hoccupied p hother

/-- At the limit an access only refreshes the place of its key in the bucket. -/
theorem refresh (hl : Layout t (as ++ (h, b) :: bs)) {s : Handle}
    (hb : b.keys.entries = xs ++ (s, key) :: ys)
    (hoccupied : ∀ p ∈ as ++ bs, p.2.keys.entries ≠ []) :
    (t.modifyKeys h fun keys => (keys.moveToFront s).2).Consistent ∧
      (t.modifyKeys h fun keys => (keys.moveToFront s).2).queue =
        ((Rungs.queue (as ++ (h, b) :: bs)).without key).place key b.frequency := by
  -- `b'` is the bucket without the key, `moved` the bucket with the key at the front
  rcases hl.ladder.take hb with ⟨b', hladder, hb', hcount⟩
  rcases hl.ladder.wellFormed_keys.moveToFront hb with ⟨hwellFormed, hentries⟩
  have hmoved := hl.ladder.mapKeys (fun keys => (keys.moveToFront s).2) hwellFormed
  generalize hbucket : b.mapKeys (fun keys => (keys.moveToFront s).2) = moved at hmoved
  have hkeys : moved.keys.entries = (s, key) :: b'.keys.entries := by
    rw [← hbucket, hb']
    exact hentries
  have htake := Rungs.positions_take as bs h hb hb'
  have hput := Rungs.positions_put as bs h hkeys
  have hlayout : Layout (t.modifyKeys h fun keys => (keys.moveToFront s).2)
      (as ++ (h, moved) :: bs) :=
    ⟨hmoved, hl.indexed.perm (htake.trans hput.symm)⟩
  have hplace := Rungs.place_queue hladder.ascending hkeys (hbucket ▸ hcount.symm)
  rw [(hl.without_eq hb hb' hcount).2, ← hcount, hplace]
  apply hlayout.consistent
  intro p hp
  rcases List.mem_cons.mp (List.perm_middle.mem_iff.mp hp) with rfl | hother
  · rw [hkeys]
    exact List.cons_ne_nil _ _
  · exact hoccupied p hother

/-- Below the limit an access moves its key to the bucket of the next count. -/
theorem promote (hl : Layout t (as ++ (position.bucket, b) :: bs))
    (hget : t.index[key]? = some position)
    (hb : b.keys.entries = xs ++ (position.slot, key) :: ys)
    (hoccupied : ∀ p ∈ as ++ bs, p.2.keys.entries ≠ []) (hlimit : b.frequency < limit) :
    (t.access key).Consistent ∧ (t.access key).queue =
      ((Rungs.queue (as ++ (position.bucket, b) :: bs)).without key).place key
        (b.frequency + 1) := by
  obtain ⟨target, nb, bs', t₁, hsuccessor, hindex₁, hladder₁, hcount, hqueue, hpositions, hbs'⟩ :=
    hl.ladder.successorBucket hlimit
  have howned : (t₁.buckets.get? position.bucket).bind (·.keys.get? position.slot) = some key := by
    rw [hladder₁.get?_eq, Option.bind_some, hl.ladder.wellFormed_keys.get?_eq_some_iff, hb]
    simp
  -- the key is taken out of `b`, which leaves `b'`, and put into `nb`, which gives `nb'`
  rcases hladder₁.take hb with ⟨b', hladder₂, hb', hcount'⟩
  rw [List.append_cons] at hladder₂
  obtain ⟨nb', slot, t₃, hpush, hindex₃, hladder₃, hnb', hncount⟩ := hladder₂.pushKey key
  have hindex : t₃.index = t.index := hindex₃.trans hindex₁
  -- the index still has the key, so its entry is the one that is changed
  have hkept : (t₃.releaseIfEmpty position.bucket).index.contains key = true := by
    rw [releaseIfEmpty_index, hindex, Std.HashMap.contains_eq_isSome_getElem?, hget,
      Option.isSome_some]
  have haccess : t.access key =
      { t₃ with index := t.index.insert key ⟨target, slot⟩ }.releaseIfEmpty position.bucket := by
    unfold Frequency.access
    simp only [hget, hl.ladder.bucketFrequency?_eq, if_neg (Nat.ne_of_lt hlimit), hsuccessor,
      howned, hpush]
    rw [reindex_of_contains hkept, releaseIfEmpty_index, hindex]
    exact (t₃.releaseIfEmpty_withIndex position.bucket _).symm
  -- the new bucket, if there is one, is still empty: it holds no position and no key
  have hsame : Rungs.positions (as ++ (position.bucket, b) :: (target, nb) :: bs') =
      Rungs.positions (as ++ (position.bucket, b) :: bs) := by
    rw [Rungs.positions_middle, Rungs.positions_middle, hpositions]
  have hwithout : (Rungs.queue (as ++ (position.bucket, b) :: bs)).without key =
      Rungs.queue (as ++ [(position.bucket, b')] ++ (target, nb) :: bs') := by
    rw [(hl.without_eq hb hb' hcount').2, ← List.append_cons, Rungs.queue_middle,
      Rungs.queue_middle, hqueue]
  have htake := Rungs.positions_take as ((target, nb) :: bs') position.bucket hb hb'
  have hput := Rungs.positions_put (as ++ [(position.bucket, b')]) bs' target hnb'
  -- the index moves the key from its node in `b` to its node in `nb'`
  have hindexed := hl.indexed
  rw [← hsame] at hindexed
  have hmoved := (hindexed.perm htake).move ⟨target, slot⟩
  rw [List.append_cons] at hmoved
  have hplace := Rungs.place_queue hladder₂.ascending hnb' hncount
  rw [hcount] at hplace
  rw [hwithout, hplace, haccess, ← List.append_cons]
  rw [← List.append_cons] at hladder₃ hput
  -- only `b'` may be empty now
  apply Layout.release (t := { t₃ with index := t.index.insert key ⟨target, slot⟩ }) ⟨hladder₃, ?_⟩
  · intro p hp
    rcases List.mem_cons.mp (List.perm_middle.mem_iff.mp hp) with rfl | hother
    · rw [hnb']
      exact List.cons_ne_nil _ _
    · -- an old bucket, which was not empty before
      apply hoccupied
      rcases List.mem_append.mp hother with has | hbs
      · exact List.mem_append_left _ has
      · exact List.mem_append_right _ (hbs' p hbs)
  · exact hmoved.perm hput.symm

end Layout

namespace Consistent

theorem keys_nodup (ht : t.Consistent) : t.queue.keys.Nodup := ht.layout.keys_nodup

theorem contains_iff (ht : t.Consistent) : t.contains key = true ↔ key ∈ t.queue.keys :=
  ht.layout.mem_keys_iff.symm

theorem getElem?_eq_none_iff (ht : t.Consistent) : t.index[key]? = none ↔ key ∉ t.queue.keys := by
  rw [ht.layout.indexed.getElem?_eq_none_iff, queue, (Rungs.keys_perm _).mem_iff]

theorem size_eq (ht : t.Consistent) : t.size = t.queue.length := by
  have hlength := (Rungs.keys_perm t.buckets.entries).length_eq
  rw [EvictionQueue.length_keys, List.length_map] at hlength
  rw [size, ht.layout.indexed.size_eq, queue, hlength]

/-- The bucket and the node of an indexed key, with the layout around them. -/
theorem split (ht : t.Consistent) (hget : t.index[key]? = some position) :
    ∃ as b bs xs ys, Layout t (as ++ (position.bucket, b) :: bs) ∧
      b.keys.entries = xs ++ (position.slot, key) :: ys ∧
      (∀ p ∈ as ++ bs, p.2.keys.entries ≠ []) ∧
      t.queue = Rungs.queue (as ++ (position.bucket, b) :: bs) := by
  rcases ht.layout.split hget with ⟨as, b, bs, xs, ys, hrungs, hb⟩
  have hlayout := ht.layout
  have hoccupied := ht.occupied
  rw [hrungs] at hlayout hoccupied
  refine ⟨as, b, bs, xs, ys, hlayout, hb, ?_, hlayout.ladder.queue_eq⟩
  intro p hp
  exact hoccupied p (List.perm_middle.mem_iff.mpr (List.mem_cons_of_mem _ hp))

theorem frequency?_eq (ht : t.Consistent) (key : κ) : t.frequency? key = t.queue.lookup key := by
  unfold frequency?
  cases hget : t.index[key]? with
  | none =>
    have hfresh : key ∉ t.queue.keys := ht.getElem?_eq_none_iff.mp hget
    exact (Pairs.lookup_eq_none_iff_notMem.mpr hfresh).symm
  | some position =>
    rcases ht.split hget with ⟨as, b, bs, xs, ys, hlayout, hb, -, hqueue⟩
    rcases hlayout.ladder.take hb with ⟨b', -, hb', hcount⟩
    rw [Option.bind_some, hlayout.ladder.bucketFrequency?_eq, hqueue,
      (hlayout.without_eq hb hb' hcount).1]

/-! ## Operations -/

theorem access (ht : t.Consistent) (key : κ) :
    (t.access key).Consistent ∧ (t.access key).queue = t.queue.access .lfu key := by
  cases hget : t.index[key]? with
  | none =>
    -- an untracked key
    have hfresh : key ∉ t.queue.keys := ht.getElem?_eq_none_iff.mp hget
    have haccess : t.access key = t := by
      unfold Frequency.access
      rw [hget]
    rw [haccess, EvictionQueue.access_of_notMem hfresh]
    exact ⟨ht, rfl⟩
  | some position =>
    rcases ht.split hget with ⟨as, b, bs, xs, ys, hlayout, hb, hoccupied, hqueue⟩
    rcases hlayout.ladder.take hb with ⟨b', -, hb', hcount⟩
    have hlookup := (hlayout.without_eq hb hb' hcount).1
    rw [hqueue, EvictionQueue.access_of_lookup rfl hlookup]
    rcases Nat.lt_or_eq_of_le hlayout.ladder.bounded_middle.2 with hlt | heq
    · have hnext : Policy.lfu.nextCount b.frequency = b.frequency + 1 := Nat.min_eq_left hlt
      rw [hnext]
      exact hlayout.promote hget hb hoccupied hlt
    · -- the count has reached the limit and stays there
      have hnext : Policy.lfu.nextCount b.frequency = b.frequency := by
        rw [Policy.nextCount, heq]
        exact Nat.min_eq_right (Nat.le_succ _)
      have haccess : t.access key =
          t.modifyKeys position.bucket fun keys => (keys.moveToFront position.slot).2 := by
        unfold Frequency.access
        simp only [hget, hlayout.ladder.bucketFrequency?_eq, if_pos heq]
      rw [hnext, haccess]
      exact hlayout.refresh hb hoccupied

/-- Inserting a tracked key counts an access. -/
theorem insert_of_mem (ht : t.Consistent) (hmem : key ∈ t.queue.keys) :
    t.insert key = t.access key := by
  have hcontains : t.index.contains key = true := ht.contains_iff.mpr hmem
  rw [Frequency.insert, if_pos hcontains]

theorem insert (ht : t.Consistent) (hfresh : key ∉ t.queue.keys) :
    (t.insert key).Consistent ∧ (t.insert key).queue = t.queue.insert key := by
  have hcontains : ¬ t.index.contains key = true := fun h => hfresh (ht.contains_iff.mp h)
  obtain ⟨nb, bs, hindex, hladder, hcount, hqueue, hpositions, hbs⟩ :=
    ht.layout.ladder.initialBucket
  have hladder' : Ladder t.initialBucket.2.buckets ([] ++ (t.initialBucket.1, nb) :: bs) := hladder
  obtain ⟨nb', slot, t', hpush, hindex', hladder'', hnb', hcount'⟩ := hladder'.pushKey key
  have hinsert : t.insert key =
      { t' with index := t.index.insert key ⟨t.initialBucket.1, slot⟩ } := by
    rw [Frequency.insert, if_neg hcontains]
    dsimp only
    rw [hpush]
    dsimp only
    rw [hindex', hindex]
  have hplace := Rungs.place_queue hladder'.ascending hnb' hcount'
  have hput := Rungs.positions_put [] bs t.initialBucket.1 hnb'
  -- the key is new to the index as well, since it lists the queued keys
  have hfreshPosition : key ∉ (Rungs.positions t.buckets.entries).map (·.2) := by
    rw [← (Rungs.keys_perm _).mem_iff]
    exact hfresh
  have hindexed := ht.layout.indexed.insert hfreshPosition ⟨t.initialBucket.1, slot⟩
  rw [← hpositions] at hindexed
  have hstart : t.queue.insert key =
      Rungs.queue ([] ++ (t.initialBucket.1, nb') :: bs) := by
    rw [← hplace, hcount, EvictionQueue.insert, queue, ← hqueue]
    rfl
  rw [hstart, hinsert]
  apply Layout.consistent (t := { t' with index := t.index.insert key ⟨t.initialBucket.1, slot⟩ })
    ⟨hladder'', ?_⟩
  · intro p hp
    rcases List.mem_cons.mp hp with rfl | hother
    · rw [hnb']
      exact List.cons_ne_nil _ _
    · exact ht.occupied p (hbs p hother)
  · exact hindexed.perm hput.symm

theorem remove (ht : t.Consistent) (key : κ) :
    (t.remove key).1 = decide (key ∈ t.queue.keys) ∧
      (t.remove key).2.Consistent ∧ (t.remove key).2.queue = t.queue.without key := by
  unfold Frequency.remove
  cases hget : t.index[key]? with
  | none =>
    have hfresh : key ∉ t.queue.keys := ht.getElem?_eq_none_iff.mp hget
    have hwithout : t.queue.without key = t.queue := Pairs.filter_of_notMem hfresh
    rw [hwithout]
    exact ⟨(decide_eq_false hfresh).symm, ht, rfl⟩
  | some position =>
    have hmem : key ∈ t.queue.keys :=
      (Rungs.keys_perm _).mem_iff.mpr (ht.layout.indexed.mem_of_getElem? hget)
    rcases ht.split hget with ⟨as, b, bs, xs, ys, hlayout, hb, hoccupied, hqueue⟩
    rcases hlayout.ladder.take hb with ⟨b', hladder, hb', hcount⟩
    have htake := Rungs.positions_take as bs position.bucket hb hb'
    rw [hqueue, (hlayout.without_eq hb hb' hcount).2]
    rw [hqueue] at hmem
    refine ⟨(decide_eq_true hmem).symm, Layout.release ⟨hladder, ?_⟩ hoccupied⟩
    exact (hlayout.indexed.perm htake).erase

/-- The first bucket and its last node, if there is a bucket. -/
theorem front_cases (ht : t.Consistent) :
    t.buckets.entries = [] ∨ ∃ h b bs xs s key,
      t.buckets.entries = (h, b) :: bs ∧ b.keys.entries = xs ++ [(s, key)] := by
  cases hrungs : t.buckets.entries with
  | nil => exact Or.inl rfl
  | cons front bs =>
    have hoccupied : front.2.keys.entries ≠ [] := ht.occupied front (by simp [hrungs])
    rcases List.eq_nil_or_concat' front.2.keys.entries with hnil | ⟨xs, q, hconcat⟩
    · exact absurd hnil hoccupied
    · exact Or.inr ⟨front.1, front.2, bs, xs, q.1, q.2, rfl, hconcat⟩

theorem victim?_eq (ht : t.Consistent) : t.victim? = t.queue.head?.map (·.1) := by
  rcases ht.layout.ladder.shape with ⟨vacant, hs⟩
  unfold victim? queue
  rw [hs.front?_eq]
  rcases ht.front_cases with hnil | ⟨h, b, bs, xs, s, key, hrungs, hb⟩
  · rw [hnil]
    rfl
  · have hwellFormed : b.keys.WellFormed :=
      ht.layout.ladder.keys_wellFormed (h, b) (by simp [hrungs])
    rw [hrungs, Rungs.queue_front hb]
    exact hwellFormed.back?_of_entries hb

theorem evict (ht : t.Consistent) :
    (t.evict).1 = t.queue.head?.map (·.1) ∧
      (t.evict).2.Consistent ∧ (t.evict).2.queue = t.queue.tail := by
  rcases ht.layout.ladder.shape with ⟨vacant, hs⟩
  unfold Frequency.evict
  rw [hs.head_eq_head?]
  rcases ht.front_cases with hnil | ⟨h, b, bs, xs, s, key, hrungs, hb⟩
  · -- no bucket and no key
    have hqueue : t.queue = [] := by
      rw [queue, hnil]
      rfl
    rw [hnil, hqueue]
    exact ⟨rfl, ht, hqueue⟩
  · have hlayout := ht.layout
    have hoccupied := ht.occupied
    rw [hrungs] at hlayout hoccupied
    -- the last key of the first bucket is taken out, then its index entry, then the
    -- bucket if that was its last key
    have hladder : Ladder t.buckets ([] ++ (h, b) :: bs) := hlayout.ladder
    have hkey : (t.buckets.get? h).bind (·.keys.popBack.1) = some key := by
      rw [hladder.get?_eq, Option.bind_some, popBack_fst]
      exact hladder.wellFormed_keys.back?_of_entries hb
    rcases hladder.wellFormed_keys.popBack hb with ⟨hwellFormed, hentries⟩
    have hpopped := hladder.mapKeys (fun keys => keys.popBack.2) hwellFormed
    have hb' : (b.mapKeys fun keys => keys.popBack.2).keys.entries = xs ++ [] := by
      rw [List.append_nil]
      exact hentries
    have htake := Rungs.positions_take [] bs h hb hb'
    have hqueue : t.queue = (key, b.frequency) :: (leaving b.frequency xs ++ Rungs.queue bs) := by
      rw [queue, hrungs, Rungs.queue_front hb]
    have hrest : Rungs.queue ([] ++ (h, b.mapKeys fun keys => keys.popBack.2) :: bs) =
        leaving b.frequency xs ++ Rungs.queue bs := by
      rw [Rungs.queue_middle, ← hentries]
      rfl
    have hrelease := Layout.release
      (t := { t.modifyKeys h fun keys => keys.popBack.2 with index := t.index.erase key })
      ⟨hpopped, (hlayout.indexed.perm htake).erase⟩
      fun p hp => hoccupied p (List.mem_cons_of_mem _ hp)
    rw [hrest, releaseIfEmpty_withIndex] at hrelease
    rw [hrungs, hqueue]
    simp only [List.head?_cons, Option.map_some, List.tail_cons, releaseIfEmpty_index, hkey]
    exact ⟨trivial, hrelease⟩

/-! ## Branches that are never taken -/

/-- An indexed key stands at a live node of a live bucket. -/
theorem node_of_getElem? (ht : t.Consistent) (hget : t.index[key]? = some position) :
    ∃ b, t.buckets.get? position.bucket = some b ∧ b.keys.get? position.slot = some key := by
  rcases ht.split hget with ⟨as, b, bs, xs, ys, hlayout, hb, -, -⟩
  refine ⟨b, hlayout.ladder.get?_eq, ?_⟩
  rw [hlayout.ladder.wellFormed_keys.get?_eq_some_iff, hb]
  simp

end Consistent

/-- No operation meets a missing bucket, node or victim. -/
structure NoDeadEnd (t : Frequency κ) : Prop where
  /-- The bucket that is resolved for a new key is live. -/
  initial_live : (t.initialBucket.2.freshSlot? t.initialBucket.1).isSome
  /-- The first bucket has a last key. -/
  victim_live : t.buckets.head.isSome → t.victim?.isSome
  /-- An indexed key stands at a live node of a live bucket. -/
  node_live : ∀ key position, t.index[key]? = some position →
    ∃ b, t.buckets.get? position.bucket = some b ∧ b.keys.get? position.slot = some key
  /-- The bucket of the next count is there, it is still there once the key has
  left its old bucket, and meanwhile the key is where the index says. -/
  successor_live : ∀ key position count, t.index[key]? = some position →
    t.bucketFrequency? position.bucket = some count → count ≠ limit →
    ∃ target t', t.successorBucket position.bucket (count + 1) = (some target, t') ∧
      (t'.buckets.get? position.bucket).bind (·.keys.get? position.slot) = some key ∧
      ((t'.modifyKeys position.bucket fun keys =>
        (keys.remove position.slot).2).freshSlot? target).isSome

namespace Consistent

theorem noDeadEnd (ht : t.Consistent) : t.NoDeadEnd where
  initial_live := by
    rcases ht.layout.ladder.initialBucket with ⟨nb, bs, -, hladder, -, -, -, -⟩
    have hladder' : Ladder t.initialBucket.2.buckets
        ([] ++ (t.initialBucket.1, nb) :: bs) := hladder
    rw [freshSlot?, hladder'.get?_eq]
    rfl
  victim_live := by
    intro hhead
    rcases ht.layout.ladder.shape with ⟨vacant, hs⟩
    rw [ht.victim?_eq]
    rcases ht.front_cases with hnil | ⟨h, b, bs, xs, s, key, hrungs, hb⟩
    · rw [hs.head_eq_head?, hnil] at hhead
      exact absurd hhead Bool.false_ne_true
    · rw [queue, hrungs, Rungs.queue_front hb]
      rfl
  node_live _ _ hget := ht.node_of_getElem? hget
  successor_live := by
    intro key position count hget hcount hlimit
    rcases ht.split hget with ⟨as, b, bs, xs, ys, hlayout, hb, -, -⟩
    rw [hlayout.ladder.bucketFrequency?_eq] at hcount
    obtain rfl := Option.some.inj hcount
    have hlt : b.frequency < limit := Nat.lt_of_le_of_ne hlayout.ladder.bounded_middle.2 hlimit
    obtain ⟨target, nb, bs', t', hsuccessor, -, hladder, -, -, -, -⟩ :=
      hlayout.ladder.successorBucket hlt
    rcases hladder.take hb with ⟨b', hladder', -, -⟩
    rw [List.append_cons] at hladder'
    refine ⟨target, t', hsuccessor, ?_, ?_⟩
    · rw [hladder.get?_eq, Option.bind_some, hladder.wellFormed_keys.get?_eq_some_iff, hb]
      simp
    · rw [freshSlot?, hladder'.get?_eq]
      rfl

end Consistent

/-! ## The consistency check -/

omit [DecidableEq κ] [Hashable κ] in
theorem bucketFault?_eq_none {buckets : List (Bucket κ)} {previous : Option Nat}
    (hoccupied : ∀ b ∈ buckets, b.keys.isEmpty = false)
    (hprevious : ∀ n ∈ previous, ∀ b ∈ buckets, n < b.frequency)
    (hascending : (buckets.map (·.frequency)).Pairwise (· < ·)) :
    bucketFault? previous buckets = none := by
  -- the check compares each count with the one before it, so `previous` moves along
  induction buckets generalizing previous with
  | nil => rfl
  | cons b buckets ih =>
    rcases List.pairwise_cons.mp hascending with ⟨hbehind, hascending⟩
    have hempty : ¬ b.keys.isEmpty = true := by simp [hoccupied b List.mem_cons_self]
    have horder : ¬ (previous.any fun count => b.frequency ≤ count) = true := by
      cases previous with
      | none => exact Bool.false_ne_true
      | some n =>
        have hlt := hprevious n rfl b List.mem_cons_self
        simpa using hlt
    rw [bucketFault?, if_neg hempty, if_neg horder]
    refine ih (fun c hc => hoccupied c (List.mem_cons_of_mem _ hc)) ?_ hascending
    intro n hn c hc
    obtain rfl := Option.some.inj hn
    exact hbehind _ (List.mem_map_of_mem hc)

omit [DecidableEq κ] [Hashable κ] in
theorem foldl_length_eq {rungs : Rungs κ} (hwellFormed : ∀ p ∈ rungs, p.2.keys.WellFormed)
    (n : Nat) :
    (rungs.map (·.2)).foldl (fun n bucket => n + bucket.keys.length) n =
      n + (Rungs.positions rungs).length := by
  induction rungs generalizing n with
  | nil => rfl
  | cons p rungs ih =>
    have hlength := (hwellFormed p List.mem_cons_self).length_eq
    have hpositions : Rungs.positions (p :: rungs) =
        (p.2.keys.entries.map fun q => (⟨p.1, q.1⟩, q.2)) ++ Rungs.positions rungs := rfl
    rw [List.map_cons, List.foldl_cons, ih fun q hq => hwellFormed q (List.mem_cons_of_mem _ hq),
      hpositions, List.length_append, List.length_map, hlength]
    omega

namespace Consistent

/-- The consistency check finds nothing. -/
theorem fault?_eq_none (ht : t.Consistent) : t.fault? = none := by
  have hladder := ht.layout.ladder
  have hbuckets : bucketFault? none t.buckets.toList = none := by
    apply bucketFault?_eq_none
    · intro b hb
      rcases List.mem_map.mp hb with ⟨p, hp, rfl⟩
      rw [← Bool.not_eq_true, (hladder.keys_wellFormed p hp).isEmpty_iff]
      exact ht.occupied p hp
    · intro n hn
      exact absurd hn (Option.not_mem_none n)
    · rw [toList, List.map_map]
      exact hladder.ascending
  have hlisted : t.listed = t.index.size := by
    rw [listed, toList, foldl_length_eq hladder.keys_wellFormed, ht.layout.indexed.size_eq,
      Nat.zero_add]
  rw [fault?, hbuckets]
  rw [if_neg (not_not_intro hlisted), List.findSome?_eq_none_iff]
  -- the index leads to the key itself
  rintro ⟨key, position⟩ hmem
  have hget : t.index[key]? = some position := Std.HashMap.mem_toList_iff_getElem?_eq_some.mp hmem
  rcases ht.node_of_getElem? hget with ⟨b, hbucket, hnode⟩
  simp [hbucket, hnode]

end Consistent

/-- The tracker lists the queued keys. -/
theorem keys_perm (t : Frequency κ) : t.keys.Perm t.queue.keys := by
  have hkeys : t.keys = (Rungs.positions t.buckets.entries).map (·.2) := by
    simp only [keys, entries, Rungs.positions, toList, List.map_flatMap, List.flatMap_map,
      List.map_map]
    rfl
  rw [hkeys]
  exact (Rungs.keys_perm _).symm

/-- The tracker lists the queue by count, and of equal counts the key that leaves last first. -/
theorem Consistent.entries_eq (ht : t.Consistent) : t.entries = t.queue.recentFirst := by
  rw [queue, Rungs.recentFirst_queue ht.layout.ladder.ascending]
  simp only [entries, toList, List.flatMap_map, List.map_map]
  rfl

end CacheLab.Frequency
