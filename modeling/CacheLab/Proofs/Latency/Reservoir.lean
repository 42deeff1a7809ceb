import CacheLab.Proofs.Fallible
import CacheLab.Proofs.Latency
import Mathlib.Data.List.Basic

/-!
# CacheLab.Proofs.Latency.Reservoir — what the reservoir holds

A reservoir is a sample of the latencies that its sampler stands for, of the right size, whatever
is drawn.

* `Sampler.Sampled` says that the samples are latencies and as many of them as there is room for.
  A record and a merge keep it (`Sampler.Sampled.record`, `Sampler.Sampled.merge`).
* `Gathering.runStrictly` is a run that looks at every place before it is overwritten or exchanged
  and at every divisor, and stops at a `Misstep`. Its steps come to what the steps of a run come to
  (`Sampler.recordStrictly_eq`, `Sampler.mergeStrictly_eq`), so nothing ever stops it but an
  overflow (`Gathering.runStrictly_eq`).
-/

namespace CacheLab

/-! ## Shuffling -/

theorem perm_swapIfInBounds (samples : Array Nat) (i j : Nat) :
    (samples.swapIfInBounds i j).toList.Perm samples.toList := by
  rw [Array.swapIfInBounds]
  split
  · split
    · exact (Array.swap_perm _ _).toList
    · exact List.Perm.refl _
  · exact List.Perm.refl _

/-- A shuffle changes nothing but the order. -/
theorem perm_shuffle (draws : Nat → Nat) (samples : Array Nat) :
    (shuffle draws samples).toList.Perm samples.toList := by
  rw [shuffle]
  generalize List.range samples.size = places
  induction places generalizing samples with
  | nil => exact List.Perm.refl _
  | cons i places ih => exact (ih _).trans (perm_swapIfInBounds samples i _)

namespace Sampler

/-! ## The samples -/

/-- A sampler whose reservoir holds latencies of a list, all of them or as many as it has room
for. -/
structure Sampled (s : Sampler) (latencies : List Nat) : Prop where
  size_eq : s.samples.size = min latencies.length reservoirSize
  mem : ∀ x ∈ s.samples, x ∈ latencies

namespace Sampled

variable {s s' : Sampler} {latencies latencies' : List Nat}

theorem empty : Sampled .empty [] where
  size_eq := rfl
  mem x hx := absurd hx (Array.not_mem_empty x)

/-- A sample keeps to the size of the reservoir, and takes in nothing but the new latency. -/
theorem sample (samples : Array Nat) (latency n draw : Nat)
    (hsize : samples.size ≤ reservoirSize) :
    (Sampler.sample samples latency n draw).size = min (samples.size + 1) reservoirSize ∧
      ∀ x ∈ Sampler.sample samples latency n draw, x ∈ samples ∨ x = latency := by
  rw [Sampler.sample]
  split
  case isTrue hroom =>
    constructor
    · rw [Array.size_push]
      omega
    · intro x hx
      exact Array.mem_push.mp hx
  case isFalse hfull =>
    dsimp only
    split
    case isTrue hplace =>
      constructor
      · rw [Array.size_setIfInBounds]
        omega
      · intro x hx
        exact Array.mem_or_eq_of_mem_setIfInBounds hx
    case isFalse hplace =>
      constructor
      · omega
      · intro x hx
        exact Or.inl hx

theorem record (hs : s.Sampled latencies) (latency draw : Nat) :
    (s.record latency draw).Sampled (latency :: latencies) := by
  have hold := hs.size_eq
  rcases sample s.samples latency (s.count + 1) draw (by omega) with ⟨hsize, hmem⟩
  constructor
  case size_eq =>
    show (Sampler.sample s.samples latency (s.count + 1) draw).size = _
    rw [hsize, List.length_cons]
    omega
  case mem =>
    intro x hx
    rcases hmem x hx with hold | rfl
    · exact List.mem_cons_of_mem latency (hs.mem x hold)
    · exact List.mem_cons_self

/-- The samples of a pool are some of the samples that it is made of, and as many of them as
there is room for. -/
theorem pool (draws : Nat → Nat) (a b : Array Nat) :
    (Sampler.pool draws a b).size = min (a.size + b.size) reservoirSize ∧
      ∀ x ∈ Sampler.pool draws a b, x ∈ a ∨ x ∈ b := by
  have hperm := perm_shuffle draws (a ++ b)
  have hsize : (shuffle draws (a ++ b)).toList.length = a.size + b.size := by
    rw [hperm.length_eq, Array.length_toList, Array.size_append]
  rw [Sampler.pool]
  split
  case isTrue hmany =>
    rw [Array.size_append] at hmany
    rw [← Array.shrink_eq_take]
    constructor
    · rw [← Array.length_toList, Array.toList_shrink, List.length_take, hsize]
      omega
    · intro x hx
      rw [← Array.mem_toList_iff, Array.toList_shrink] at hx
      have hmem := hperm.mem_iff.mp (List.mem_of_mem_take hx)
      exact Array.mem_append.mp (Array.mem_toList_iff.mp hmem)
  case isFalse hfew =>
    rw [Array.size_append] at hfew
    constructor
    · rw [Array.size_append]
      omega
    · intro x hx
      exact Array.mem_append.mp hx

theorem merge (hs : s.Sampled latencies) (hs' : s'.Sampled latencies') (draws : Nat → Nat) :
    (s.merge s' draws).Sampled (latencies ++ latencies') := by
  rcases pool draws s.samples s'.samples with ⟨hsize, hmem⟩
  constructor
  case size_eq =>
    show (Sampler.pool draws s.samples s'.samples).size = _
    have hfirst := hs.size_eq
    have hsecond := hs'.size_eq
    rw [hsize, List.length_append]
    omega
  case mem =>
    intro x hx
    rcases hmem x hx with hfirst | hsecond
    · exact List.mem_append_left _ (hs.mem x hfirst)
    · exact List.mem_append_right _ (hs'.mem x hsecond)

end Sampled

/-- What a step of a fold keeps between its result and what it takes in holds between the result of
all steps and every item. -/
theorem foldr_rel {f : Nat → Nat → Nat} {R : Nat → Nat → Prop} (hfirst : ∀ a b, R (f a b) a)
    (hrest : ∀ a b x, R b x → R (f a b) x) (start : Nat) {l : List Nat} {x : Nat} (hx : x ∈ l) :
    R (l.foldr f start) x := by
  induction l with
  | nil => cases hx
  | cons a l ih =>
    rw [List.foldr_cons]
    rcases List.mem_cons.mp hx with rfl | hx
    · exact hfirst _ _
    · exact hrest _ _ _ (ih hx)

theorem Holds.least_le {s : Sampler} {latencies : List Nat} (hs : s.Holds latencies) {x : Nat}
    (hx : x ∈ latencies) : s.least ≤ x := by
  rw [hs.least_eq]
  exact foldr_rel Nat.min_le_left (fun a b _ hle => (Nat.min_le_right a b).trans hle) _ hx

theorem Holds.le_greatest {s : Sampler} {latencies : List Nat} (hs : s.Holds latencies) {x : Nat}
    (hx : x ∈ latencies) : x ≤ s.greatest := by
  rw [hs.greatest_eq]
  exact foldr_rel (R := fun m y => y ≤ m) Nat.le_max_left
    (fun a b _ hle => hle.trans (Nat.le_max_right a b)) _ hx

theorem eq_of_record? {s s' : Sampler} {latency draw : Nat}
    (hrecord : s.record? latency draw = .ok s') : s' = s.record latency draw := by
  rw [record?] at hrecord
  split at hrecord
  · exact (Except.ok.inj hrecord).symm
  · cases hrecord

theorem eq_of_merge? {s s' merged : Sampler} {draws : Nat → Nat}
    (hmerge : s.merge? s' draws = .ok merged) : merged = s.merge s' draws := by
  rw [merge?] at hmerge
  split at hmerge
  · exact (Except.ok.inj hmerge).symm
  · cases hmerge

end Sampler

/-! ## Missteps -/

/-- What would stop a run in the middle of a step. -/
inductive Misstep where
  | overflow (operation : Overflow)
  /-- Writing to a place that the reservoir does not have. -/
  | noPlace (place size : Nat)
  /-- Dividing by zero. -/
  | noDivisor
deriving DecidableEq, Repr

namespace Sampler

/-- The remainder of a division, unless it is by zero. -/
def remainder (a n : Nat) : Except Misstep Nat :=
  if n = 0 then .error .noDivisor else .ok (a % n)

/-- Puts a latency into a place, if the reservoir has it. -/
def overwrite (samples : Array Nat) (place latency : Nat) : Except Misstep (Array Nat) :=
  if h : place < samples.size then .ok (samples.set place latency)
  else .error (.noPlace place samples.size)

/-- Exchanges two places, if the reservoir has both. -/
def exchange (samples : Array Nat) (i j : Nat) : Except Misstep (Array Nat) :=
  if hi : i < samples.size then
    if hj : j < samples.size then .ok (samples.swap i j) else .error (.noPlace j samples.size)
  else .error (.noPlace i samples.size)

/-- `sample` with a look at each place and divisor. -/
def sampleStrictly (samples : Array Nat) (latency n draw : Nat) : Except Misstep (Array Nat) :=
  if samples.size < reservoirSize then
    return samples.push latency
  else do
    let place ← remainder draw n
    if place < reservoirSize then overwrite samples place latency else return samples

/-- Exchanges a place with a drawn one from there to the end. -/
def exchangeDrawn (draws : Nat → Nat) (samples : Array Nat) (i : Nat) :
    Except Misstep (Array Nat) := do
  let ahead ← remainder (draws i) (samples.size - i)
  exchange samples i (i + ahead)

/-- `pool` with a look at each place and divisor. -/
def poolStrictly (draws : Nat → Nat) (a b : Array Nat) : Except Misstep (Array Nat) := do
  let samples := a ++ b
  if reservoirSize < samples.size then
    let shuffled ← (List.range samples.size).foldlM (exchangeDrawn draws) samples
    return shuffled.take reservoirSize
  else
    return samples

/-- `record?` with a look at each place and divisor. -/
def recordStrictly (s : Sampler) (latency draw : Nat) : Except Misstep Sampler := do
  let next ← (s.record? latency draw).mapError .overflow
  let samples ← sampleStrictly s.samples latency next.count draw
  return { next with samples }

/-- `merge?` with a look at each place and divisor. -/
def mergeStrictly (s other : Sampler) (draws : Nat → Nat) : Except Misstep Sampler := do
  let merged ← (s.merge? other draws).mapError .overflow
  let samples ← poolStrictly draws s.samples other.samples
  return { merged with samples }

theorem remainder_eq {a n : Nat} (hn : n ≠ 0) : remainder a n = .ok (a % n) := if_neg hn

theorem overwrite_eq {samples : Array Nat} {place : Nat} (latency : Nat)
    (hplace : place < samples.size) :
    overwrite samples place latency = .ok (samples.setIfInBounds place latency) := by
  rw [overwrite, dif_pos hplace, Array.setIfInBounds_def, dif_pos hplace]

theorem exchange_eq {samples : Array Nat} {i j : Nat} (hi : i < samples.size)
    (hj : j < samples.size) : exchange samples i j = .ok (samples.swapIfInBounds i j) := by
  rw [exchange, dif_pos hi, dif_pos hj, Array.swapIfInBounds, dif_pos hi, dif_pos hj]

/-- A place below the size of a reservoir is one of a full reservoir. -/
theorem sampleStrictly_eq (samples : Array Nat) (latency draw : Nat) {n : Nat} (hn : n ≠ 0) :
    sampleStrictly samples latency n draw = .ok (sample samples latency n draw) := by
  rw [sampleStrictly, sample]
  split
  case isTrue hroom => rfl
  case isFalse hfull =>
    have hfits : reservoirSize ≤ samples.size := Nat.le_of_not_lt hfull
    rw [remainder_eq hn]
    show (if draw % n < reservoirSize then overwrite samples (draw % n) latency
      else .ok samples) = _
    dsimp only
    split
    case isTrue hplace => exact overwrite_eq latency (Nat.lt_of_lt_of_le hplace hfits)
    case isFalse hplace => rfl

/-- The drawn place is one of those from `i` to the end. -/
theorem exchangeDrawn_eq (draws : Nat → Nat) {samples : Array Nat} {i : Nat}
    (hi : i < samples.size) :
    exchangeDrawn draws samples i =
      .ok (samples.swapIfInBounds i (i + draws i % (samples.size - i))) := by
  have hdivisor : samples.size - i ≠ 0 := by omega
  have hahead : draws i % (samples.size - i) < samples.size - i :=
    Nat.mod_lt _ (Nat.pos_of_ne_zero hdivisor)
  rw [exchangeDrawn, remainder_eq hdivisor]
  exact exchange_eq hi (by omega)

theorem poolStrictly_eq (draws : Nat → Nat) (a b : Array Nat) :
    poolStrictly draws a b = .ok (pool draws a b) := by
  have hshuffle : ∀ (places : List Nat) (samples : Array Nat),
      (∀ i ∈ places, i < samples.size) →
      places.foldlM (exchangeDrawn draws) samples = .ok (places.foldl
        (fun samples i => samples.swapIfInBounds i (i + draws i % (samples.size - i)))
        samples) := by
    intro places
    induction places with
    | nil =>
      intro samples _
      rfl
    | cons i places ih =>
      intro samples hplaces
      rcases List.forall_mem_cons.mp hplaces with ⟨hi, hrest⟩
      rw [List.foldlM_cons, exchangeDrawn_eq draws hi]
      -- an exchange leaves the reservoir as large as it was
      refine ih _ fun j hj => ?_
      rw [Array.size_swapIfInBounds]
      exact hrest j hj
  rw [poolStrictly, pool]
  split
  case isTrue hmany =>
    rw [hshuffle _ _ fun i hi => List.mem_range.mp hi]
    rfl
  case isFalse hfew => rfl

theorem recordStrictly_eq (s : Sampler) (latency draw : Nat) :
    s.recordStrictly latency draw = (s.record? latency draw).mapError .overflow := by
  rw [recordStrictly]
  cases hrecord : s.record? latency draw with
  | error operation => rfl
  | ok next =>
    rw [eq_of_record? hrecord]
    show (sampleStrictly s.samples latency (s.count + 1) draw >>= _) = _
    rw [sampleStrictly_eq _ _ _ (Nat.succ_ne_zero _)]
    rfl

theorem mergeStrictly_eq (s other : Sampler) (draws : Nat → Nat) :
    s.mergeStrictly other draws = (s.merge? other draws).mapError .overflow := by
  rw [mergeStrictly]
  cases hmerge : s.merge? other draws with
  | error operation => rfl
  | ok merged =>
    rw [eq_of_merge? hmerge]
    show (poolStrictly draws s.samples other.samples >>= _) = _
    rw [poolStrictly_eq]
    rfl

end Sampler

/-! ## Runs -/

namespace Gathering

/-- A run that looks at each place and divisor. -/
def runStrictly : Gathering → Except Misstep Sampler
  | new => .ok .empty
  | record g latency draw => do
    let s ← g.runStrictly
    s.recordStrictly latency draw
  | merge g other draws => do
    let s ← g.runStrictly
    let s' ← other.runStrictly
    s.mergeStrictly s' draws

/-- A run that looks at each place and divisor comes to the same as one that does not. -/
theorem runStrictly_eq (g : Gathering) : g.runStrictly = g.run.mapError .overflow := by
  induction g with
  | new => rfl
  | record g latency draw ih =>
    rw [runStrictly, run, ih]
    cases g.run with
    | error operation => rfl
    | ok s => exact s.recordStrictly_eq latency draw
  | merge g other draws ih ih' =>
    rw [runStrictly, run, ih, ih']
    cases g.run with
    | error operation => rfl
    | ok s =>
      cases other.run with
      | error operation => rfl
      | ok s' => exact s.mergeStrictly_eq s' draws

/-- A run that does not overflow ends with a sampler that has a sample of all latencies. -/
theorem run_sampled (g : Gathering) (hrun : g.run ≠ .error .addition) :
    ∃ s, g.run = .ok s ∧ s.Holds g.latencies ∧ s.Sampled g.latencies := by
  have hsampled : ∀ (g : Gathering) (s : Sampler), g.run = .ok s → s.Sampled g.latencies := by
    intro g
    induction g with
    | new =>
      intro s hs
      cases hs
      exact .empty
    | record g latency draw ih =>
      intro s hs
      rcases of_bind_eq_ok hs with ⟨before, hbefore, hrecord⟩
      rw [Sampler.eq_of_record? hrecord]
      exact (ih before hbefore).record latency draw
    | merge g other draws ih ih' =>
      intro s hs
      rcases of_bind_eq_ok hs with ⟨first, hfirst, hs⟩
      rcases of_bind_eq_ok hs with ⟨second, hsecond, hmerge⟩
      rw [Sampler.eq_of_merge? hmerge]
      exact (ih first hfirst).merge (ih' second hsecond) draws
  rcases g.run_cases with ⟨-, s, hs, hholds⟩ | ⟨-, hoverflow⟩
  · exact ⟨s, hs, hholds, hsampled g s hs⟩
  · exact absurd hoverflow hrun

/-- Unless a run overflows, no place that it writes to is missing and no divisor is zero, whatever
is drawn. In the end the reservoir holds as many samples as there are latencies, or as it has
room for, and each of them is a latency and lies between the least and the greatest one. -/
theorem run_reservoir (g : Gathering) (hrun : g.run ≠ .error .addition) :
    ∃ s, g.run = .ok s ∧ g.runStrictly = .ok s ∧ s.count = g.latencies.length ∧
      s.samples.size = min s.count reservoirSize ∧
      ∀ x ∈ s.samples, x ∈ g.latencies ∧ s.least ≤ x ∧ x ≤ s.greatest := by
  rcases g.run_sampled hrun with ⟨s, hs, hholds, hsampled⟩
  refine ⟨s, hs, ?_, hholds.count_eq, ?_, ?_⟩
  · rw [runStrictly_eq, hs]
    rfl
  · rw [hsampled.size_eq, hholds.count_eq]
  · intro x hx
    have hmem := hsampled.mem x hx
    exact ⟨hmem, hholds.least_le hmem, hholds.le_greatest hmem⟩

/-- Two full samplers are merged, and a latency replaces a sample. -/
theorem run_reservoir_full :
    let full (latency : Nat) : Gathering :=
      recordEach .new (List.replicate reservoirSize (latency, 3))
    let g : Gathering := .record (.merge (full 7) (full 9) fun i => 2 * i) 8 4
    g.run ≠ .error .addition ∧
      ∃ s, g.run = .ok s ∧ g.runStrictly = .ok s ∧ s.count = 10001 ∧ s.samples.size = 5000 ∧
        ∀ x ∈ s.samples, 7 ≤ x ∧ x ≤ 9 := by
  intro full g
  have hfull : ∀ latency, (full latency).latencies.Perm (List.replicate reservoirSize latency) := by
    intro latency
    have hperm := latencies_recordEach .new (List.replicate reservoirSize (latency, 3))
    rw [List.map_replicate, latencies, List.append_nil] at hperm
    exact hperm
  have hlatencies : g.latencies.Perm
      (8 :: (List.replicate reservoirSize 7 ++ List.replicate reservoirSize 9)) :=
    ((hfull 7).append (hfull 9)).cons 8
  have hlength : g.latencies.length = 10001 := by
    rw [hlatencies.length_eq, List.length_cons, List.length_append, List.length_replicate,
      List.length_replicate, reservoirSize]
  have hsum : g.latencies.sum = 80008 := by
    rw [hlatencies.sum_nat, List.sum_cons, List.sum_append, List.sum_replicate_nat,
      List.sum_replicate_nat, reservoirSize]
  have hrange : ∀ x ∈ g.latencies, 7 ≤ x ∧ x ≤ 9 := by
    intro x hx
    rcases List.mem_cons.mp (hlatencies.mem_iff.mp hx) with rfl | hx
    · decide
    · rcases List.mem_append.mp hx with hseven | hnine
      · rw [List.eq_of_mem_replicate hseven]
        decide
      · rw [List.eq_of_mem_replicate hnine]
        decide
  have hrun : g.run ≠ .error .addition := by
    rcases g.run_cases with ⟨-, s, hs, -⟩ | ⟨hfit, -⟩
    · rw [hs]
      intro herror
      cases herror
    · refine absurd ⟨?_, ?_⟩ hfit
      · rw [hsum]
        decide
      · rw [hlength]
        decide
  rcases run_reservoir g hrun with ⟨s, hs, hstrictly, hcount, hsize, hmem⟩
  refine ⟨hrun, s, hs, hstrictly, hcount.trans hlength, ?_, ?_⟩
  · rw [hsize, hcount, hlength]
    rfl
  · intro x hx
    exact hrange x (hmem x hx).1

end Gathering

end CacheLab
