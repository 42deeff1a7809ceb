import CacheLab.Proofs.Simulation.Replay
import Mathlib.Algebra.BigOperators.Group.List.Basic
import Mathlib.Algebra.Order.Group.Multiset

/-!
# CacheLab.Proofs.Simulation.Visits — what becomes of the requests of a replay

However the workers of a replay take turns, a shared cache sees one sequence of calls,
each of them on the state that the calls before have left. A `Visit` is such a call
with its outcome, and `Subject.Runs` says what the visits do to the cache.

A request waits in the queue of a worker until it is looked up and, if that was a
miss, it is pending until it is inserted. `Load` is what is waiting and what has been
counted, of one worker or of several together, and `Load.Advance` keeps account of it:
a visit is counted once, a lookup takes a request from the queue, a miss makes it
pending, and an insertion ends that.

* `Progress` is a run of visits of which account is kept. It does not touch the load
  of other workers (`Progress.frame`), and it goes on (`Progress.trans`).
* `Progress.lookup` and `Progress.insertion` are the two steps.
* `Progress.serveAll`: so requests in sequence are served one by one.
-/

namespace CacheLab

/-! ## Counts add up -/

namespace Counts

attribute [ext] Counts

instance : Zero Counts := ⟨{}⟩

instance : Add Counts where
  add n k :=
    { hits := n.hits + k.hits
      misses := n.misses + k.misses
      evictions := n.evictions + k.evictions
      lookups := n.lookups + k.lookups
      insertions := n.insertions + k.insertions }

instance : AddCommMonoid Counts where
  add_assoc n k l := Counts.ext (Nat.add_assoc _ _ _) (Nat.add_assoc _ _ _) (Nat.add_assoc _ _ _)
    (Nat.add_assoc _ _ _) (Nat.add_assoc _ _ _)
  zero_add n := Counts.ext (Nat.zero_add _) (Nat.zero_add _) (Nat.zero_add _) (Nat.zero_add _)
    (Nat.zero_add _)
  add_zero n := rfl
  add_comm n k := Counts.ext (Nat.add_comm _ _) (Nat.add_comm _ _) (Nat.add_comm _ _)
    (Nat.add_comm _ _) (Nat.add_comm _ _)
  nsmul := nsmulRec

@[simp] theorem hits_add (n k : Counts) : (n + k).hits = n.hits + k.hits := rfl

@[simp] theorem misses_add (n k : Counts) : (n + k).misses = n.misses + k.misses := rfl

@[simp] theorem evictions_add (n k : Counts) : (n + k).evictions = n.evictions + k.evictions := rfl

@[simp] theorem lookups_add (n k : Counts) : (n + k).lookups = n.lookups + k.lookups := rfl

@[simp] theorem insertions_add (n k : Counts) :
    (n + k).insertions = n.insertions + k.insertions := rfl

theorem noteLookup_eq (n : Counts) (hit : Bool) : n.noteLookup hit = n + noteLookup 0 hit := by
  cases hit <;> rfl

theorem noteInsertion_eq (n : Counts) (displaced : Bool) :
    n.noteInsertion displaced = n + noteInsertion 0 displaced := by
  cases displaced <;> rfl

end Counts

/-! ## Visits -/

/-- A call of a replay with its outcome. -/
inductive Visit where
  /-- A lookup of a request, which was a hit or not. -/
  | lookup (request : Request) (hit : Bool)
  /-- An insertion for a request, which displaced an entry or not. -/
  | insertion (request : Request) (displaced : Bool)
deriving DecidableEq, Repr

namespace Visit

/-- The requests that are looked up. -/
def lookedUp : Visit → Multiset Request
  | lookup request _ => {request}
  | insertion _ _ => 0

/-- The requests that are looked up in vain. -/
def missed : Visit → Multiset Request
  | lookup request hit => if hit then 0 else {request}
  | insertion _ _ => 0

/-- The requests that are inserted. -/
def inserted : Visit → Multiset Request
  | lookup _ _ => 0
  | insertion request _ => {request}

/-- What is counted. -/
def counted : Visit → Counts
  | lookup _ hit => Counts.noteLookup 0 hit
  | insertion _ displaced => Counts.noteInsertion 0 displaced

end Visit

namespace Subject

/-- What a visit does. -/
def Step (s : Subject) (visit : Visit) (s' : Subject) : Prop :=
  match visit with
  | .lookup request hit => s.get request.key = (hit, s')
  | .insertion request displaced => s.put request.key request.stored = (displaced, s')

section

variable {c : Cache String Nat} {s' : Subject} {request : Request}

theorem step_lookup_shared {hit : Bool} (hstep : (shared ⟨c⟩).Step (.lookup request hit) s') :
    hit = (c.get request.key).1.isSome ∧ s' = shared ⟨(c.get request.key).2⟩ := by
  have hget : ((c.get request.key).1.isSome, shared ⟨(c.get request.key).2⟩) = (hit, s') := hstep
  rcases Prod.mk.inj hget with ⟨hhit, hs⟩
  exact ⟨hhit.symm, hs.symm⟩

theorem step_insertion_shared {displaced : Bool}
    (hstep : (shared ⟨c⟩).Step (.insertion request displaced) s') :
    displaced = (c.put request.key request.stored).1.isSome ∧
      s' = shared ⟨(c.put request.key request.stored).2⟩ := by
  have hput : ((c.put request.key request.stored).1.isSome,
    shared ⟨(c.put request.key request.stored).2⟩) = (displaced, s') := hstep
  rcases Prod.mk.inj hput with ⟨hdisplaced, hs⟩
  exact ⟨hdisplaced.symm, hs.symm⟩

end

/-- What visits do one after another. -/
inductive Runs : Subject → List Visit → Subject → Prop where
  | nil {s : Subject} : Runs s [] s
  | cons {s s' s'' : Subject} {visit : Visit} {visits : List Visit} :
    s.Step visit s' → Runs s' visits s'' → Runs s (visit :: visits) s''

theorem Runs.append {s s' s'' : Subject} {visits others : List Visit} (hfirst : s.Runs visits s')
    (hrest : s'.Runs others s'') : s.Runs (visits ++ others) s'' := by
  induction hfirst with
  | nil => exact hrest
  | cons hstep _ ih => exact .cons hstep (ih hrest)

end Subject

/-! ## Loads -/

/-- What workers have counted, and the requests that wait for a lookup and for an
insertion. -/
@[ext]
structure Load where
  counts : Counts
  queued : Multiset Request
  pending : Multiset Request

namespace Load

instance : Zero Load := ⟨⟨0, 0, 0⟩⟩

instance : Add Load := ⟨fun a b => ⟨a.counts + b.counts, a.queued + b.queued, a.pending + b.pending⟩⟩

instance : AddCommMonoid Load where
  add_assoc a b c := Load.ext (add_assoc _ _ _) (add_assoc _ _ _) (add_assoc _ _ _)
  zero_add a := Load.ext (zero_add _) (zero_add _) (zero_add _)
  add_zero a := Load.ext (add_zero _) (add_zero _) (add_zero _)
  add_comm a b := Load.ext (add_comm _ _) (add_comm _ _) (add_comm _ _)
  nsmul := nsmulRec

/-- The load of finished workers. -/
def done (n : Counts) : Load := ⟨n, 0, 0⟩

theorem done_add (n k : Counts) : done (n + k) = done n + done k := rfl

/-- The load of workers that have not begun. -/
def waiting (requests : Multiset Request) : Load := ⟨0, requests, 0⟩

theorem waiting_add (requests others : Multiset Request) :
    waiting (requests + others) = waiting requests + waiting others := rfl

/-- The account of a run of visits. -/
structure Advance (before : Load) (visits : List Visit) (after : Load) : Prop where
  /-- Each visit is counted. -/
  counts_eq : before.counts + (visits.map Visit.counted).sum = after.counts
  /-- A request that was waiting has been looked up, or it is waiting still. -/
  queued_eq : before.queued = (visits.map Visit.lookedUp).sum + after.queued
  /-- A request that was pending, or that was missed, has been inserted, or it is
  pending still. -/
  pending_eq : before.pending + (visits.map Visit.missed).sum =
    (visits.map Visit.inserted).sum + after.pending
  /-- At no time has a request been inserted that was neither pending nor missed. -/
  inserted_le : ∀ past, past <+: visits →
    (past.map Visit.inserted).sum ≤ before.pending + (past.map Visit.missed).sum

namespace Advance

variable {before middle after : Load} {visits others : List Visit}

theorem refl (l : Load) : Advance l [] l where
  counts_eq := add_zero _
  queued_eq := (zero_add _).symm
  pending_eq := add_comm _ _
  inserted_le past hpast := by
    rw [List.prefix_nil.mp hpast]
    exact Multiset.zero_le _

theorem trans (hfirst : before.Advance visits middle) (hrest : middle.Advance others after) :
    before.Advance (visits ++ others) after where
  counts_eq := by
    rw [List.map_append, List.sum_append, ← add_assoc, hfirst.counts_eq, hrest.counts_eq]
  queued_eq := by
    rw [List.map_append, List.sum_append, add_assoc, ← hrest.queued_eq, hfirst.queued_eq]
  pending_eq := by
    rw [List.map_append, List.sum_append, List.map_append, List.sum_append, ← add_assoc,
      hfirst.pending_eq, add_assoc, hrest.pending_eq, add_assoc]
  inserted_le past hpast := by
    rcases List.prefix_or_prefix_of_prefix hpast (List.prefix_append visits others) with
      hbefore | ⟨later, rfl⟩
    · exact hfirst.inserted_le past hbefore
    · -- the first visits leave those pending that the later ones begin with
      have hlater := hrest.inserted_le later ((List.prefix_append_right_inj visits).mp hpast)
      rw [List.map_append, List.sum_append, List.map_append, List.sum_append, ← add_assoc,
        hfirst.pending_eq, add_assoc]
      exact add_le_add_right hlater _

theorem frame (hadvance : before.Advance visits after) (rest : Load) :
    (before + rest).Advance visits (after + rest) where
  counts_eq := (add_right_comm _ _ _).trans (congrArg (· + rest.counts) hadvance.counts_eq)
  queued_eq := (congrArg (· + rest.queued) hadvance.queued_eq).trans (add_assoc _ _ _)
  pending_eq := by
    have hpending := congrArg (· + rest.pending) hadvance.pending_eq
    exact ((add_right_comm _ _ _).trans hpending).trans (add_assoc _ _ _)
  inserted_le past hpast := by
    have hle : before.pending ≤ before.pending + rest.pending := Multiset.le_add_right _ _
    exact (hadvance.inserted_le past hpast).trans (add_le_add_left hle _)

end Advance

end Load

/-! ## Progress -/

/-- Visits lead from one load and subject to another, and account is kept of them. -/
def Progress (before after : Load × Subject) : Prop :=
  ∃ visits, before.2.Runs visits after.2 ∧ before.1.Advance visits after.1

namespace Progress

variable {l l' : Load} {s s' : Subject} {n : Counts} {queued pending : Multiset Request}
  {request : Request}

theorem refl (state : Load × Subject) : Progress state state :=
  ⟨[], .nil, .refl state.1⟩

theorem trans {first second third : Load × Subject} (hfirst : Progress first second)
    (hrest : Progress second third) : Progress first third := by
  rcases hfirst with ⟨visits, hruns, hadvance⟩
  rcases hrest with ⟨others, hruns', hadvance'⟩
  exact ⟨visits ++ others, hruns.append hruns', hadvance.trans hadvance'⟩

/-- What some workers do leaves the load of the others alone. -/
theorem frame (hprogress : Progress (l, s) (l', s')) (rest : Load) :
    Progress (l + rest, s) (l' + rest, s') := by
  rcases hprogress with ⟨visits, hruns, hadvance⟩
  exact ⟨visits, hruns, hadvance.frame rest⟩

/-- Some workers after others. -/
theorem beside {k k' : Load} {s'' : Subject} (hfirst : Progress (l, s) (l', s'))
    (hrest : Progress (k, s') (k', s'')) : Progress (l + k, s) (l' + k', s'') := by
  have hframe := hrest.frame l'
  rw [add_comm k, add_comm k'] at hframe
  exact (hfirst.frame k).trans hframe

/-- A lookup takes a request from the queue, and a miss makes it pending. -/
theorem lookup {hit : Bool} (hget : s.get request.key = (hit, s')) :
    Progress (⟨n, {request} + queued, pending⟩, s)
      (⟨n.noteLookup hit, queued, pending + if hit then 0 else {request}⟩, s') := by
  refine ⟨[.lookup request hit], .cons hget .nil, ?_⟩
  constructor
  · exact (congrArg (n + ·) (List.sum_singleton)).trans (n.noteLookup_eq hit).symm
  · exact congrArg (· + queued) List.sum_singleton.symm
  · exact (congrArg (pending + ·) List.sum_singleton).trans (zero_add _).symm
  · intro past hpast
    rcases List.prefix_cons_iff.mp hpast with rfl | ⟨later, rfl, hlater⟩
    · exact Multiset.zero_le _
    · rw [List.prefix_nil.mp hlater]
      exact Multiset.zero_le _

/-- An insertion takes a request that was pending. -/
theorem insertion {displaced : Bool}
    (hput : s.put request.key request.stored = (displaced, s')) :
    Progress (⟨n, queued, {request} + pending⟩, s)
      (⟨n.noteInsertion displaced, queued, pending⟩, s') := by
  refine ⟨[.insertion request displaced], .cons hput .nil, ?_⟩
  constructor
  · exact (congrArg (n + ·) (List.sum_singleton)).trans (n.noteInsertion_eq displaced).symm
  · exact (zero_add _).symm
  · exact (add_zero _).trans (congrArg (· + pending) List.sum_singleton.symm)
  · intro past hpast
    rcases List.prefix_cons_iff.mp hpast with rfl | ⟨later, rfl, hlater⟩
    · exact Multiset.zero_le _
    · rw [List.prefix_nil.mp hlater]
      exact (Multiset.le_add_right {request} pending).trans (le_of_eq (add_zero _).symm)

/-- A request that is served is looked up and, on a miss, inserted. -/
theorem serve (n : Counts) (s : Subject) (request : Request) (queued : Multiset Request) :
    Progress (⟨n, {request} + queued, 0⟩, s)
      (⟨(Subject.serve (n, s) request).1, queued, 0⟩, (Subject.serve (n, s) request).2) := by
  rcases hget : s.get request.key with ⟨hit, s'⟩
  cases hit with
  | true =>
    rw [Subject.serve_of_hit hget]
    exact lookup hget
  | false =>
    rcases hput : s'.put request.key request.stored with ⟨displaced, s''⟩
    rw [Subject.serve_of_miss hget hput]
    have hmiss : Progress (⟨n, {request} + queued, 0⟩, s)
        (⟨n.noteLookup false, queued, 0 + {request}⟩, s') := lookup hget
    rw [add_comm 0] at hmiss
    exact hmiss.trans (insertion hput)

/-- Requests in sequence are served one by one. -/
theorem serveAll (requests : List Request) (n : Counts) (s : Subject) :
    Progress (⟨n, requests, 0⟩, s)
      (.done (requests.foldl Subject.serve (n, s)).1,
        (requests.foldl Subject.serve (n, s)).2) := by
  induction requests generalizing n s with
  | nil => exact .refl _
  | cons request requests ih => exact (serve n s request requests).trans (ih _ _)

end Progress

end CacheLab
