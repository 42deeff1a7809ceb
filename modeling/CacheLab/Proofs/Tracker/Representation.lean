import CacheLab.Proofs.Tracker

/-!
# CacheLab.Proofs.Tracker.Representation — trackers used on their own

A cache inserts only new keys and touches only present ones. Whoever uses a
tracker directly is not bound to that: keys are inserted again, and keys that
are not tracked are accessed and removed.

* `Tracker.Step` is one such use, and `Tracker.steps` makes a list of them.
* `Tracker.Represented` says what the parts of a tracker mean to each other: the
  index is an exact `Catalogue` of the listed keys, and the buckets of the order
  by frequency are `Graded`.
* `Consistent.step` is the step lemma, and `steps_represented` the run lemma.
-/

namespace CacheLab

variable {κ : Type} [DecidableEq κ] [Hashable κ]

/-! ## What the parts of a tracker mean to each other -/

/-- The index has exactly the listed keys, each at the one place that holds it,
and no key is listed twice. -/
structure Catalogue {ρ : Type} (index : Std.HashMap κ ρ) (keys : List κ)
    (keyAt? : ρ → Option κ) : Prop where
  keys_nodup : keys.Nodup
  contains_iff : ∀ key, index.contains key = true ↔ key ∈ keys
  getElem?_eq_some_iff : ∀ key place, index[key]? = some place ↔ keyAt? place = some key

theorem Indexed.catalogue {ρ : Type} {index : Std.HashMap κ ρ} {listed : List (ρ × κ)}
    {keys : List κ} {keyAt? : ρ → Option κ} (hi : Indexed index listed)
    (hkeys : keys.Perm (listed.map (·.2)))
    (hat : ∀ key place, keyAt? place = some key ↔ (place, key) ∈ listed) :
    Catalogue index keys keyAt? where
  keys_nodup := hkeys.nodup_iff.mpr hi.keys_nodup
  contains_iff key := by rw [hi.contains_iff, hkeys.mem_iff]
  getElem?_eq_some_iff key place := by rw [hi.getElem?_eq_some_iff, hat]

omit [DecidableEq κ] [Hashable κ] in
/-- No bucket is empty, and the access counts grow from one on, each more than
the one before. -/
structure Graded (buckets : List (Bucket κ)) : Prop where
  occupied : ∀ b ∈ buckets, b.keys.toList ≠ []
  one_le : ∀ b ∈ buckets, 1 ≤ b.frequency
  ascending : buckets.Pairwise fun a b => a.frequency < b.frequency
  frequency_nodup : (buckets.map (·.frequency)).Nodup

/-- The key in the node of a bucket. -/
def Frequency.keyAt? (t : Frequency κ) (position : Position) : Option κ :=
  (t.buckets.get? position.bucket).bind (·.keys.get? position.slot)

/-- The index is an exact catalogue of the listed keys; under `lfu` the buckets
are graded besides. -/
def Tracker.Represented : Tracker κ → Prop
  | .lru t => Catalogue t.index t.keys t.order.get?
  | .fifo t => Catalogue t.index t.keys t.queue.get?
  | .lfu t => Catalogue t.index t.keys t.keyAt? ∧ Graded t.buckets.toList

theorem Listing.catalogue {order : ArenaList κ} {index : Std.HashMap κ Handle}
    (hl : Listing order index) : Catalogue index order.toList order.get? :=
  hl.indexed.catalogue (List.Perm.refl _) fun _ _ => hl.wellFormed.get?_eq_some_iff

namespace Frequency

variable {t : Frequency κ}

/-- In well-formed lists a node holds a key exactly if it is the position of the key. -/
theorem keyAt?_eq_some_iff (hbuckets : t.buckets.WellFormed)
    (hkeys : ∀ rung ∈ t.buckets.entries, rung.2.keys.WellFormed) (key : κ) (position : Position) :
    t.keyAt? position = some key ↔ (position, key) ∈ Rungs.positions t.buckets.entries := by
  rw [keyAt?, Option.bind_eq_some_iff, Rungs.positions, List.mem_flatMap]
  constructor
  · rintro ⟨b, hbucket, hslot⟩
    have hrung := hbuckets.get?_eq_some_iff.mp hbucket
    have hnode := (hkeys _ hrung).get?_eq_some_iff.mp hslot
    exact ⟨(position.bucket, b), hrung, List.mem_map.mpr ⟨_, hnode, rfl⟩⟩
  · rintro ⟨rung, hrung, hposition⟩
    rcases List.mem_map.mp hposition with ⟨node, hnode, heq⟩
    rcases Prod.mk.inj heq with ⟨rfl, rfl⟩
    exact ⟨rung.2, hbuckets.get?_eq_some_iff.mpr hrung,
      (hkeys _ hrung).get?_eq_some_iff.mpr hnode⟩

/-- An index of the positions is a catalogue of the listed keys. -/
theorem catalogue_of_indexed (hbuckets : t.buckets.WellFormed)
    (hkeys : ∀ rung ∈ t.buckets.entries, rung.2.keys.WellFormed)
    (hi : Indexed t.index (Rungs.positions t.buckets.entries)) :
    Catalogue t.index t.keys t.keyAt? :=
  hi.catalogue (t.keys_perm.trans (Rungs.keys_perm _)) (keyAt?_eq_some_iff hbuckets hkeys)

namespace Consistent

theorem catalogue (ht : t.Consistent) : Catalogue t.index t.keys t.keyAt? := by
  rcases ht.layout.ladder.shape with ⟨vacant, hs⟩
  exact catalogue_of_indexed hs.wellFormed ht.layout.ladder.keys_wellFormed ht.layout.indexed

theorem graded (ht : t.Consistent) : Graded t.buckets.toList := by
  have hladder := ht.layout.ladder
  have hascending : (t.buckets.toList.map (·.frequency)).Pairwise (· < ·) := by
    rw [ArenaList.toList, List.map_map]
    exact hladder.ascending
  constructor
  · intro b hb hnil
    rcases List.mem_map.mp hb with ⟨rung, hrung, rfl⟩
    exact ht.occupied rung hrung (List.map_eq_nil_iff.mp hnil)
  · intro b hb
    rcases List.mem_map.mp hb with ⟨rung, hrung, rfl⟩
    exact (hladder.bounded _ (List.mem_map_of_mem hrung)).1
  · exact List.pairwise_map.mp hascending
  · exact hascending.imp Nat.ne_of_lt

end Consistent

end Frequency

/-! ## Steps -/

namespace Tracker

/-- One use of a tracker. -/
inductive Step (κ : Type) where
  | insert (key : κ)
  | access (key : κ)
  | evict
  | remove (key : κ)
  | clear

/-- The tracker after one use. -/
def step (t : Tracker κ) : Step κ → Tracker κ
  | .insert key => t.insert key
  | .access key => t.access key
  | .evict => t.evict.2
  | .remove key => (t.remove key).2
  | .clear => t.clear

/-- The tracker after some uses, one after another. -/
def steps (t : Tracker κ) (uses : List (Step κ)) : Tracker κ := uses.foldl step t

variable {t : Tracker κ}

namespace Consistent

theorem represented (ht : t.Consistent) : t.Represented := by
  cases t with
  | lru t => exact Listing.catalogue ht
  | fifo t => exact Listing.catalogue ht
  | lfu t => exact ⟨Frequency.Consistent.catalogue ht, Frequency.Consistent.graded ht⟩

/-- Each use of a tracker keeps it consistent, whatever key it is given. -/
theorem step (ht : t.Consistent) (use : Step κ) :
    (t.step use).Consistent ∧ (t.step use).policy = t.policy := by
  cases use with
  | insert key =>
    by_cases hmem : key ∈ t.queue.keys
    · -- a key that is tracked already: nothing is listed twice
      rcases ht.access key with ⟨hconsistent, hpolicy, -⟩
      rw [Tracker.step, ht.insert_of_mem hmem]
      exact ⟨hconsistent, hpolicy⟩
    · rcases ht.insert hmem with ⟨hconsistent, hpolicy, -⟩
      exact ⟨hconsistent, hpolicy⟩
  | access key =>
    rcases ht.access key with ⟨hconsistent, hpolicy, -⟩
    exact ⟨hconsistent, hpolicy⟩
  | evict =>
    rcases ht.evict with ⟨-, hconsistent, hpolicy, -⟩
    exact ⟨hconsistent, hpolicy⟩
  | remove key =>
    rcases ht.remove key with ⟨-, hconsistent, hpolicy, -⟩
    exact ⟨hconsistent, hpolicy⟩
  | clear =>
    rw [Tracker.step, t.clear_eq]
    exact ⟨consistent_new t.policy, policy_new t.policy⟩

theorem steps (ht : t.Consistent) (uses : List (Step κ)) :
    (t.steps uses).Consistent ∧ (t.steps uses).policy = t.policy := by
  induction uses generalizing t with
  | nil => exact ⟨ht, rfl⟩
  | cons use uses ih =>
    rcases ht.step use with ⟨hconsistent, hpolicy⟩
    rcases ih hconsistent with ⟨hlast, hsame⟩
    exact ⟨hlast, hsame.trans hpolicy⟩

end Consistent

/-- However a tracker is used from its beginning, its index is an exact catalogue
of the keys that it lists, and the buckets of the order by frequency are graded. -/
theorem steps_represented (policy : Policy) (uses : List (Step κ)) :
    ((new policy : Tracker κ).steps uses).policy = policy ∧
      ((new policy : Tracker κ).steps uses).Represented := by
  rcases (consistent_new policy).steps uses with ⟨hconsistent, hpolicy⟩
  exact ⟨hpolicy.trans (policy_new policy), hconsistent.represented⟩

end Tracker

end CacheLab
