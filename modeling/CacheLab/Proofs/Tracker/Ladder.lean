import CacheLab.Proofs.ArenaList.Shape
import CacheLab.Proofs.EvictionQueue

/-!
# CacheLab.Proofs.Tracker.Ladder — buckets by ascending count

The order by frequency keeps a list of buckets, each with a list of keys. Its
two levels are separated here:

* `Rungs` are the buckets with their handles as a plain list. They are read as
  a queue (`Rungs.queue`) and as the positions of their keys
  (`Rungs.positions`); taking a key out of a bucket and putting it at the front
  of one are one step on each of the two readings.
* `Ladder l rungs` says that the arena list `l` holds these buckets, well
  formed, by strictly ascending count. Each step of the tracker on its buckets
  keeps it.
-/

namespace CacheLab

open ArenaList

variable {κ : Type}

/-- The bucket with changed keys. -/
def Bucket.mapKeys (b : Bucket κ) (f : ArenaList κ → ArenaList κ) : Bucket κ :=
  { b with keys := f b.keys }

namespace Frequency

/-- The keys of one bucket in the order in which they leave, each with its count. -/
def leaving (count : Nat) (nodes : List (Handle × κ)) : EvictionQueue κ :=
  (nodes.map fun q => (q.2, count)).reverse

theorem leaving_append (count : Nat) (xs ys : List (Handle × κ)) :
    leaving count (xs ++ ys) = leaving count ys ++ leaving count xs := by
  rw [leaving, List.map_append, List.reverse_append, leaving, leaving]

theorem leaving_cons (count : Nat) (q : Handle × κ) (xs : List (Handle × κ)) :
    leaving count (q :: xs) = leaving count xs ++ [(q.2, count)] := by
  rw [leaving, List.map_cons, List.reverse_cons, leaving]

/-- Buckets with their handles. -/
abbrev Rungs (κ : Type) := List (Handle × Bucket κ)

namespace Rungs

/-- The access counts of the buckets. -/
def counts (rungs : Rungs κ) : List Nat := rungs.map (·.2.frequency)

/-- The keys in the order in which they leave, each with its count. -/
def queue (rungs : Rungs κ) : EvictionQueue κ :=
  rungs.flatMap fun p => leaving p.2.frequency p.2.keys.entries

/-- Where each key stands. -/
def positions (rungs : Rungs κ) : List (Position × κ) :=
  rungs.flatMap fun p => p.2.keys.entries.map fun q => (⟨p.1, q.1⟩, q.2)

variable {rungs as bs : Rungs κ} {b b' : Bucket κ} {h s : Handle} {key : κ}
  {xs ys : List (Handle × κ)}

theorem queue_middle : queue (as ++ (h, b) :: bs) =
    queue as ++ (leaving b.frequency b.keys.entries ++ queue bs) := by
  rw [queue, List.flatMap_append, List.flatMap_cons]
  rfl

/-- The last key of the first bucket leaves next. -/
theorem queue_front (hb : b.keys.entries = xs ++ [(s, key)]) :
    queue ((h, b) :: bs) = (key, b.frequency) :: (leaving b.frequency xs ++ queue bs) := by
  rw [queue, List.flatMap_cons, hb, leaving_append, leaving_cons]
  rfl

theorem positions_middle : positions (as ++ (h, b) :: bs) =
    positions as ++ ((b.keys.entries.map fun q => (⟨h, q.1⟩, q.2)) ++ positions bs) := by
  rw [positions, List.flatMap_append, List.flatMap_cons]
  rfl

theorem counts_middle : counts (as ++ (h, b) :: bs) = counts as ++ b.frequency :: counts bs := by
  rw [counts, List.map_append, List.map_cons]
  rfl

/-- Each queued count is the count of a bucket. -/
theorem count_mem {p : κ × Nat} (hp : p ∈ queue rungs) : p.2 ∈ counts rungs := by
  rcases List.mem_flatMap.mp hp with ⟨rung, hrung, hleaving⟩
  rcases List.mem_map.mp (List.mem_reverse.mp hleaving) with ⟨q, -, rfl⟩
  exact List.mem_map_of_mem (f := (·.2.frequency)) hrung

/-- The queue and the positions list the same keys. -/
theorem keys_perm (rungs : Rungs κ) :
    (queue rungs).keys.Perm ((positions rungs).map (·.2)) := by
  induction rungs with
  | nil => exact List.Perm.refl []
  | cons p rungs ih =>
    have hqueue : queue (p :: rungs) = leaving p.2.frequency p.2.keys.entries ++ queue rungs := rfl
    have hpositions : positions (p :: rungs) =
        (p.2.keys.entries.map fun q => (⟨p.1, q.1⟩, q.2)) ++ positions rungs := rfl
    rw [hqueue, hpositions, EvictionQueue.keys, List.map_append, List.map_append]
    apply List.Perm.append _ ih
    rw [leaving, List.map_reverse, List.map_map, List.map_map]
    exact List.reverse_perm _

/-! ### Taking a key out of its bucket -/

theorem positions_take (as bs : Rungs κ) (h : Handle) (hb : b.keys.entries = xs ++ (s, key) :: ys)
    (hb' : b'.keys.entries = xs ++ ys) :
    (positions (as ++ (h, b) :: bs)).Perm
      ((⟨h, s⟩, key) :: positions (as ++ (h, b') :: bs)) := by
  rw [positions_middle, positions_middle, hb, hb', List.map_append, List.map_cons,
    List.map_append]
  simp only [List.append_assoc, List.cons_append]
  rw [← List.append_assoc, ← List.append_assoc]
  exact List.perm_middle

/-- The queue falls apart at a key of the bucket. -/
theorem queue_take (hb : b.keys.entries = xs ++ (s, key) :: ys)
    (hb' : b'.keys.entries = xs ++ ys) (hcount : b'.frequency = b.frequency) :
    ∃ before behind, queue (as ++ (h, b) :: bs) = before ++ (key, b.frequency) :: behind ∧
      queue (as ++ (h, b') :: bs) = before ++ behind := by
  refine ⟨queue as ++ leaving b.frequency ys, leaving b.frequency xs ++ queue bs, ?_, ?_⟩
  · rw [queue_middle, hb, leaving_append, leaving_cons]
    simp
  · rw [queue_middle, hb', hcount, leaving_append]
    simp

/-! ### Putting a key at the front of a bucket -/

theorem positions_put (as bs : Rungs κ) (h : Handle)
    (hb' : b'.keys.entries = (s, key) :: b.keys.entries) :
    (positions (as ++ (h, b') :: bs)).Perm ((⟨h, s⟩, key) :: positions (as ++ (h, b) :: bs)) := by
  have hfront : b'.keys.entries = [] ++ (s, key) :: b.keys.entries := hb'
  exact positions_take as bs h hfront rfl

theorem place_queue (hascending : (counts (as ++ (h, b) :: bs)).Pairwise (· < ·))
    (hb' : b'.keys.entries = (s, key) :: b.keys.entries) (hcount : b'.frequency = b.frequency) :
    (queue (as ++ (h, b) :: bs)).place key b.frequency = queue (as ++ (h, b') :: bs) := by
  rw [counts_middle, List.pairwise_append, List.pairwise_cons] at hascending
  rcases hascending with ⟨-, ⟨hbehind, -⟩, hbefore⟩
  -- the keys up to this bucket have at most its count, the keys behind it have more
  have hle : ∀ p ∈ queue as ++ leaving b.frequency b.keys.entries, p.2 ≤ b.frequency := by
    intro p hp
    rcases List.mem_append.mp hp with has | hown
    · exact Nat.le_of_lt (hbefore _ (count_mem has) _ List.mem_cons_self)
    · -- the keys of the bucket itself
      rcases List.mem_map.mp (List.mem_reverse.mp hown) with ⟨q, -, rfl⟩
      exact Nat.le_refl _
  have hlt : ∀ p ∈ queue bs, b.frequency < p.2 := fun p hp => hbehind _ (count_mem hp)
  rw [queue_middle, ← List.append_assoc, EvictionQueue.place_append hle hlt, queue_middle, hb',
    hcount, leaving_cons]
  simp

/-! ### Listing the most recently touched key first -/

/-- The keys of a bucket are listed between the keys of at most its count and the others. -/
theorem recentFirst_leaving {count : Nat} {q before behind : EvictionQueue κ}
    (nodes : List (Handle × κ)) (hq : q.recentFirst = before ++ behind)
    (hbefore : ∀ p ∈ before, p.2 ≤ count) (hbehind : ∀ p ∈ behind, count < p.2) :
    EvictionQueue.recentFirst (leaving count nodes ++ q) =
      before ++ (nodes.map fun node => (node.2, count)) ++ behind := by
  -- the first key of the bucket leaves last, so it is the next to be listed
  induction nodes generalizing q before with
  | nil =>
    rw [List.map_nil, List.append_nil]
    exact hq
  | cons node nodes ih =>
    have hnext : EvictionQueue.recentFirst ((node.2, count) :: q) =
        (before ++ [(node.2, count)]) ++ behind := by
      show q.recentFirst.place node.2 count = _
      rw [hq, EvictionQueue.place_append hbefore hbehind, List.append_assoc]
      rfl
    have hle : ∀ p ∈ before ++ [(node.2, count)], p.2 ≤ count := by
      intro p hp
      rcases List.mem_append.mp hp with hold | hnew
      · exact hbefore p hold
      · rw [List.mem_singleton.mp hnew]
    rw [leaving_cons, List.append_assoc, List.singleton_append, ih hnext hle]
    simp

/-- Listed by count and the most recent first, the queue shows the buckets as they are. -/
theorem recentFirst_queue {rungs : Rungs κ} (hascending : (counts rungs).Pairwise (· < ·)) :
    (queue rungs).recentFirst =
      rungs.flatMap fun p => p.2.keys.entries.map fun node => (node.2, p.2.frequency) := by
  induction rungs with
  | nil => rfl
  | cons p rungs ih =>
    rcases List.pairwise_cons.mp hascending with ⟨hbehind, hascending⟩
    have hlisted : (queue rungs).recentFirst = [] ++ (queue rungs).recentFirst := rfl
    have hlater : ∀ p' ∈ (queue rungs).recentFirst, p.2.frequency < p'.2 := by
      intro p' hp'
      exact hbehind _ (count_mem ((EvictionQueue.recentFirst_perm _).mem_iff.mp hp'))
    rw [queue, List.flatMap_cons, List.flatMap_cons, ← queue,
      recentFirst_leaving p.2.keys.entries hlisted (List.forall_mem_nil _) hlater, ih hascending]
    rfl

end Rungs

/-! ## The invariant of the buckets -/

/-- The list holds these buckets, well formed and by strictly ascending count. -/
structure Ladder (l : ArenaList (Bucket κ)) (rungs : Rungs κ) : Prop where
  shape : ∃ vacant, Shape l rungs vacant
  keys_wellFormed : ∀ p ∈ rungs, p.2.keys.WellFormed
  ascending : (Rungs.counts rungs).Pairwise (· < ·)
  bounded : ∀ n ∈ Rungs.counts rungs, initial ≤ n ∧ n ≤ limit

namespace Ladder

variable {l : ArenaList (Bucket κ)} {rungs as bs : Rungs κ} {b : Bucket κ} {h : Handle} {n : Nat}

theorem empty : Ladder (ArenaList.empty : ArenaList (Bucket κ)) [] where
  shape := ⟨[], shape_empty⟩
  keys_wellFormed := by simp
  ascending := List.Pairwise.nil
  bounded := by simp [Rungs.counts]

theorem entries_eq (hl : Ladder l rungs) : l.entries = rungs := by
  rcases hl.shape with ⟨vacant, hs⟩
  exact hs.entries_eq

theorem get?_eq (hl : Ladder l (as ++ (h, b) :: bs)) : l.get? h = some b := by
  rcases hl.shape with ⟨vacant, hs⟩
  exact hs.get?_eq_some_iff.mpr (by simp)

theorem wellFormed_keys (hl : Ladder l (as ++ (h, b) :: bs)) : b.keys.WellFormed :=
  hl.keys_wellFormed (h, b) (by simp)

theorem bounded_middle (hl : Ladder l (as ++ (h, b) :: bs)) :
    initial ≤ b.frequency ∧ b.frequency ≤ limit := by
  apply hl.bounded
  rw [Rungs.counts_middle]
  simp

/-- The buckets behind a bucket have greater counts. -/
theorem lt_of_behind (hl : Ladder l (as ++ (h, b) :: bs)) :
    ∀ m ∈ Rungs.counts bs, b.frequency < m := by
  have hascending := hl.ascending
  rw [Rungs.counts_middle] at hascending
  exact (List.pairwise_cons.mp (List.pairwise_append.mp hascending).2.1).1

theorem mapKeys (hl : Ladder l (as ++ (h, b) :: bs)) (f : ArenaList κ → ArenaList κ)
    (hf : (f b.keys).WellFormed) :
    Ladder (l.modify h (·.mapKeys f)) (as ++ (h, b.mapKeys f) :: bs) := by
  rcases hl.shape with ⟨vacant, hs⟩
  have hcounts : Rungs.counts (as ++ (h, b.mapKeys f) :: bs) =
      Rungs.counts (as ++ (h, b) :: bs) := by
    rw [Rungs.counts_middle, Rungs.counts_middle]
    rfl
  refine ⟨⟨vacant, hs.modify (·.mapKeys f)⟩, ?_, ?_, ?_⟩
  · -- the other buckets keep their keys
    intro p hp
    rcases List.mem_cons.mp (List.perm_middle.mem_iff.mp hp) with rfl | hother
    · exact hf
    · exact hl.keys_wellFormed p (List.perm_middle.mem_iff.mpr (List.mem_cons_of_mem _ hother))
  · rw [hcounts]
    exact hl.ascending
  · rw [hcounts]
    exact hl.bounded

theorem remove (hl : Ladder l (as ++ (h, b) :: bs)) : Ladder (l.remove h).2 (as ++ bs) := by
  rcases hl.shape with ⟨vacant, hs⟩
  have hsub : List.Sublist (as ++ bs) (as ++ (h, b) :: bs) :=
    List.Sublist.append_left (List.sublist_cons_self _ _) _
  have hcounts : List.Sublist (Rungs.counts (as ++ bs)) (Rungs.counts (as ++ (h, b) :: bs)) :=
    hsub.map _
  exact
    { shape := ⟨_, hs.remove.2⟩
      keys_wellFormed := fun p hp => hl.keys_wellFormed p (hsub.subset hp)
      ascending := hl.ascending.sublist hcounts
      bounded := fun n hn => hl.bounded n (hcounts.subset hn) }

/-- A new bucket behind another one, with a count between the neighbours. -/
theorem insertAfter (hl : Ladder l (as ++ (h, b) :: bs)) (hlow : b.frequency < n)
    (hhigh : ∀ m ∈ Rungs.counts bs, n < m) (hlimit : n ≤ limit) :
    ∃ target, (l.insertAfter h { frequency := n }).1 = some target ∧
      Ladder (l.insertAfter h { frequency := n }).2
        (as ++ (h, b) :: (target, { frequency := n }) :: bs) := by
  rcases hl.shape with ⟨vacant, hs⟩
  rcases hs.insertAfter { frequency := n } with ⟨hhandle, hshape⟩
  have hinitial := hl.bounded_middle.1
  have hascending := hl.ascending
  have hbounded := hl.bounded
  rw [Rungs.counts_middle] at hascending hbounded
  have hcounts : Rungs.counts (as ++ (h, b) :: (l.freshHandle, { frequency := n }) :: bs) =
      Rungs.counts as ++ b.frequency :: n :: Rungs.counts bs := by
    rw [Rungs.counts_middle]
    rfl
  refine ⟨l.freshHandle, hhandle, ⟨_, hshape⟩, ?_, ?_, ?_⟩
  · -- the new bucket has no keys yet, the others are as they were
    intro p hp
    rw [List.append_cons] at hp
    rcases List.mem_cons.mp (List.perm_middle.mem_iff.mp hp) with rfl | hold
    · exact wellFormed_empty
    · rw [← List.append_cons] at hold
      exact hl.keys_wellFormed p hold
  · rw [hcounts]
    rcases List.pairwise_append.mp hascending with ⟨has, hbs, hbefore⟩
    rcases List.pairwise_cons.mp hbs with ⟨hbehind, hbs⟩
    refine List.pairwise_append.mpr ⟨has, List.pairwise_cons.mpr ⟨?_, ?_⟩, ?_⟩
    · intro m hm
      rcases List.mem_cons.mp hm with rfl | hm
      · exact hlow
      · exact hbehind m hm
    · exact List.pairwise_cons.mpr ⟨hhigh, hbs⟩
    · -- the counts before the bucket are less than its count, hence less than the new one
      intro m hm k hk
      have hmb : m < b.frequency := hbefore m hm _ List.mem_cons_self
      rcases List.mem_cons.mp hk with rfl | hk
      · exact hmb
      · rcases List.mem_cons.mp hk with rfl | hk
        · omega
        · exact hbefore m hm k (List.mem_cons_of_mem _ hk)
  · rw [hcounts]
    intro m hm
    rw [List.append_cons] at hm
    rcases List.mem_cons.mp (List.perm_middle.mem_iff.mp hm) with rfl | hold
    · omega
    · rw [← List.append_cons] at hold
      exact hbounded m hold

/-- A new first bucket. -/
theorem pushFront (hl : Ladder l rungs) (hhigh : ∀ m ∈ Rungs.counts rungs, initial < m) :
    Ladder (l.pushFront { frequency := initial }).2
      (((l.pushFront { frequency := initial }).1, { frequency := initial }) :: rungs) := by
  rcases hl.shape with ⟨vacant, hs⟩
  rcases hs.pushFront { frequency := initial } with ⟨hhandle, hshape⟩
  rw [hhandle]
  refine ⟨⟨_, hshape⟩, ?_, List.pairwise_cons.mpr ⟨hhigh, hl.ascending⟩, ?_⟩
  · intro p hp
    rcases List.mem_cons.mp hp with rfl | hold
    · exact wellFormed_empty
    · exact hl.keys_wellFormed p hold
  · intro m hm
    rcases List.mem_cons.mp hm with rfl | hold
    · show initial ≤ initial ∧ initial ≤ limit
      decide
    · exact hl.bounded m hold

end Ladder

end Frequency

end CacheLab
