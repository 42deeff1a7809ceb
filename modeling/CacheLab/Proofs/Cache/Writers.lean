import CacheLab.Cache.Shared
import CacheLab.Proofs.Cache.Stock

/-!
# CacheLab.Proofs.Cache.Writers — writers of different keys

Workers share a cache, and each of them writes keys of its own. Which of the keys are there
in the end, and which lookups have found theirs, depends on the order in which the workers
got the lock. How many keys are there does not, and neither do the counters of the writes.

* `Interleaved scripts items`: the items of all scripts, those of one script in its order.
  These are the lists that `interleave` builds (`interleaved_iff`).
* `Cache.Stocked.run` keeps the stock over the calls of writers, in any order. As the keys
  that are held are among those written so far, a new key is never an update
  (`Cache.Stocked.history_run`).
* `writers_settle` counts the writes with `Interleaved.perm`: all that matters of the
  schedule is that it permutes the calls.
-/

namespace CacheLab

/-! ## Interleavings -/

section

variable {α : Type} {scripts : List (List α)} {items : List α}

/-- The items of scripts whose owners take turns at them. -/
inductive Interleaved : List (List α) → List α → Prop where
  /-- No script has an item left. -/
  | done {scripts : List (List α)} (hdone : ∀ script ∈ scripts, script = []) :
      Interleaved scripts []
  /-- Script `i` goes on. -/
  | turn {scripts : List (List α)} {i : Nat} {item : α} {rest items : List α}
      (hscript : scripts[i]? = some (item :: rest))
      (hitems : Interleaved (scripts.set i rest) items) : Interleaved scripts (item :: items)

/-- An empty script takes no turn. -/
theorem Interleaved.cons_nil (hitems : Interleaved scripts items) :
    Interleaved ([] :: scripts) items := by
  induction hitems with
  | done hdone =>
    apply Interleaved.done
    exact List.forall_mem_cons.mpr ⟨rfl, hdone⟩
  | @turn scripts i item rest items hscript hitems ih =>
    exact .turn (i := i + 1) hscript ih

theorem interleaved_flatten (scripts : List (List α)) : Interleaved scripts scripts.flatten := by
  induction scripts with
  | nil => exact .done nofun
  | cons script scripts ih =>
    rw [List.flatten_cons]
    induction script with
    | nil => exact ih.cons_nil
    | cons item rest ihrest => exact .turn (i := 0) rfl ihrest

/-- Whatever the turns, the items come interleaved. -/
theorem interleaved_interleave (turns : List Nat) (scripts : List (List α)) :
    Interleaved scripts (interleave turns scripts) := by
  induction turns generalizing scripts with
  | nil => exact interleaved_flatten scripts
  | cons i turns ih =>
    rw [interleave, takeTurn]
    rcases hscript : scripts[i]? with _ | _ | ⟨item, rest⟩
    · exact ih scripts
    · exact ih scripts
    · exact .turn hscript (ih (scripts.set i rest))

/-- The interleavings are what turns can produce. -/
theorem interleaved_iff :
    Interleaved scripts items ↔ ∃ turns, interleave turns scripts = items := by
  constructor
  · intro hitems
    induction hitems with
    | done hdone => exact ⟨[], List.flatten_eq_nil_iff.mpr hdone⟩
    | @turn scripts i item rest items hscript hitems ih =>
      rcases ih with ⟨turns, hturns⟩
      refine ⟨i :: turns, ?_⟩
      rw [interleave, takeTurn, hscript]
      exact congrArg (item :: ·) hturns
  · rintro ⟨turns, rfl⟩
    exact interleaved_interleave turns scripts

/-- Taking the first item of a script takes it out of all items. -/
theorem flatten_set_perm {i : Nat} {item : α} {rest : List α}
    (hscript : scripts[i]? = some (item :: rest)) :
    scripts.flatten.Perm (item :: (scripts.set i rest).flatten) := by
  induction scripts generalizing i with
  | nil => cases hscript
  | cons script scripts ih =>
    cases i with
    | zero =>
      obtain rfl : script = item :: rest := Option.some.inj hscript
      exact List.Perm.refl _
    | succ i => exact ((ih hscript).append_left script).trans List.perm_middle

/-- No item is lost or repeated. -/
theorem Interleaved.perm (hitems : Interleaved scripts items) : items.Perm scripts.flatten := by
  induction hitems with
  | done hdone => rw [List.flatten_eq_nil_iff.mpr hdone]
  | turn hscript hitems ih => exact (ih.cons _).trans (flatten_set_perm hscript).symm

end

/-! ## Calls of writers -/

section

variable {κ ν : Type}

/-- The calls that writers make. -/
inductive Call.OfWriter : Call κ ν → Prop where
  | put (key : κ) (value : ν) : OfWriter (.put key value)
  | get (key : κ) : OfWriter (.get key)

/-- The key that a call writes. -/
def Call.written? : Call κ ν → Option κ
  | .put key _ => some key
  | _ => none

/-- The keys that are written by a list of calls, in order. -/
def written (calls : List (Call κ ν)) : List κ := calls.filterMap Call.written?

theorem written_cons (call : Call κ ν) (calls : List (Call κ ν)) :
    written (call :: calls) = call.written?.toList ++ written calls := by
  cases call <;> rfl

theorem written_append (calls later : List (Call κ ν)) :
    written (calls ++ later) = written calls ++ written later := List.filterMap_append

theorem countP_isPut (calls : List (Call κ ν)) :
    calls.countP Call.isPut = (written calls).length := by
  induction calls with
  | nil => rfl
  | cons call calls ih =>
    rw [written, List.countP_cons, List.filterMap_cons, ih]
    cases call <;> rfl

/-- The calls of a writer: it puts a value under each of `count` keys from `first` on, and
gets each key back after writing it if `reads` holds. -/
def writes (value : Nat → ν) (first count : Nat) (reads : Bool) : List (Call Nat ν) :=
  (List.range' first count).flatMap fun key =>
    if reads then [.put key (value key), .get key] else [.put key (value key)]

theorem writerScript_eq (first count : Nat) (reads : Bool) :
    writerScript first count reads = writes id first count reads := rfl

variable (value : Nat → ν) (first count : Nat) (reads : Bool)

theorem ofWriter_writes : ∀ call ∈ writes value first count reads, call.OfWriter := by
  intro call hcall
  rcases List.mem_flatMap.mp hcall with ⟨key, -, hkey⟩
  cases reads with
  | true =>
    rcases List.mem_pair.mp hkey with rfl | rfl
    · exact .put key _
    · exact .get key
  | false =>
    obtain rfl := List.mem_singleton.mp hkey
    exact .put key _

theorem written_writes : written (writes value first count reads) = List.range' first count := by
  rw [written, writes, List.filterMap_flatMap]
  cases reads <;> exact List.flatMap_singleton' _

theorem countP_isLookup_writes :
    (writes value first count reads).countP Call.isLookup = if reads then count else 0 := by
  induction count generalizing first with
  | zero => cases reads <;> rfl
  | succ count ih =>
    rw [writes, List.range'_succ, List.flatMap_cons, List.countP_append]
    have hrest := ih (first + 1)
    rw [writes] at hrest
    rw [hrest]
    cases reads with
    | true => exact Nat.add_comm 1 count
    | false => rfl

/-- The calls of all writers, each with `count` keys of its own. -/
def writers (workers : Nat) : List (List (Call Nat ν)) :=
  (List.range workers).map fun t => writes value (t * count) count reads

theorem writers_succ (workers : Nat) :
    (writers value count reads (workers + 1)).flatten =
      (writers value count reads workers).flatten ++
        writes value (workers * count) count reads := by
  rw [writers, List.range_succ, List.map_append, List.flatten_append, List.map_singleton,
    List.flatten_singleton]
  rfl

theorem ofWriter_writers (workers : Nat) :
    ∀ call ∈ (writers value count reads workers).flatten, call.OfWriter := by
  intro call hcall
  rcases List.mem_flatten.mp hcall with ⟨script, hscript, hmem⟩
  rcases List.mem_map.mp hscript with ⟨t, -, rfl⟩
  exact ofWriter_writes value (t * count) count reads call hmem

/-- Together the writers write each number below their total once. -/
theorem written_writers (workers : Nat) :
    written (writers value count reads workers).flatten = List.range (workers * count) := by
  induction workers with
  | zero =>
    rw [Nat.zero_mul]
    rfl
  | succ workers ih =>
    rw [writers_succ, written_append, ih, written_writes, Nat.succ_mul, List.range_eq_range',
      List.range_eq_range']
    have hsplit := List.range'_append_1 (s := 0) (m := workers * count) (n := count)
    rwa [Nat.zero_add] at hsplit

theorem countP_isLookup_writers (workers : Nat) :
    (writers value count reads workers).flatten.countP Call.isLookup =
      if reads then workers * count else 0 := by
  induction workers with
  | zero =>
    rw [Nat.zero_mul]
    cases reads <;> rfl
  | succ workers ih =>
    rw [writers_succ, List.countP_append, ih, countP_isLookup_writes, Nat.succ_mul]
    cases reads <;> rfl

end

/-! ## The stock that writers leave -/

namespace Cache

variable {κ ν : Type} [DecidableEq κ] [Hashable κ] {c : Cache κ ν} {config : Config}
  {known : Finset κ} {call : Call κ ν} {calls : List (Call κ ν)}

/-- A writer of an absent key updates nothing, and no writer removes or drops anything. -/
theorem events_ofWriter (hcall : call.OfWriter)
    (habsent : ∀ key, call.written? = some key → c.peek? key = none) :
    .update ∉ c.events call ∧ .removal ∉ c.events call ∧ c.cleared call = 0 := by
  cases hcall with
  | get key =>
    refine ⟨?_, ?_, rfl⟩
    all_goals
      rw [events]
      split <;> simp
  | put key value =>
    have hnone : (c.peek? key).isSome = false := by rw [habsent key rfl, Option.isSome_none]
    refine ⟨?_, ?_, rfl⟩
    all_goals
      rw [events, hnone, if_neg Bool.false_ne_true]
      split <;> simp

namespace Stocked

/-- The key that a writer has written is known. -/
theorem perform (hc : Stocked config known c) (hcall : call.OfWriter) :
    Stocked config (known ∪ call.written?.toList.toFinset) (c.perform call).2 := by
  cases hcall with
  | put key value => exact hc.put key value
  | get key =>
    have hsame : known ∪ ([] : List κ).toFinset = known := Finset.union_empty known
    exact hsame.symm ▸ hc.get key

/-- The keys that writers have written are known. -/
theorem run (hc : Stocked config known c) (hcalls : ∀ call ∈ calls, call.OfWriter) :
    Stocked config (known ∪ (written calls).toFinset) (c.run calls).2 := by
  induction calls generalizing c known with
  | nil =>
    have hsame : known ∪ (written ([] : List (Call κ ν))).toFinset = known :=
      Finset.union_empty known
    exact hsame.symm ▸ hc
  | cons call calls ih =>
    rcases List.forall_mem_cons.mp hcalls with ⟨hcall, hrest⟩
    rw [written_cons, List.toFinset_append, ← Finset.union_assoc]
    exact ih (hc.perform hcall) hrest

/-- Writers of different new keys update, remove and drop nothing. -/
theorem history_run (hc : Stocked config known c) (hcalls : ∀ call ∈ calls, call.OfWriter)
    (hnodup : (written calls).Nodup) (hnew : ∀ key ∈ written calls, key ∉ known) :
    .update ∉ c.history calls ∧ .removal ∉ c.history calls ∧ c.dropped calls = 0 := by
  induction calls generalizing c known with
  | nil => exact ⟨List.not_mem_nil, List.not_mem_nil, rfl⟩
  | cons call calls ih =>
    rcases List.forall_mem_cons.mp hcalls with ⟨hcall, hrest⟩
    rw [written_cons] at hnodup hnew
    rcases List.nodup_append.mp hnodup with ⟨-, hlater, hdistinct⟩
    rcases List.forall_mem_append.mp hnew with ⟨hfirst, hothers⟩
    -- only known keys are held, and the key of this call is not known yet
    have habsent : ∀ key, call.written? = some key → c.peek? key = none := by
      intro key hkey
      have hmem : key ∈ call.written?.toList := Option.mem_toList.mpr hkey
      rw [← notMem_heldKeys]
      intro hheld
      exact hfirst key hmem (hc.stock.mem_known key hheld)
    have hfresh : ∀ key ∈ written calls, key ∉ known ∪ call.written?.toList.toFinset := by
      intro key hkey hmem
      rcases Finset.mem_union.mp hmem with hold | hnow
      · exact hothers key hkey hold
      · exact hdistinct key (List.mem_toFinset.mp hnow) key hkey rfl
    rcases events_ofWriter hcall habsent with ⟨hupdate, hremoval, hcleared⟩
    rcases ih (hc.perform hcall) hrest hlater hfresh with ⟨hupdates, hremovals, hdropped⟩
    rw [history, List.mem_append, List.mem_append, dropped, hcleared, hdropped]
    exact ⟨not_or_intro hupdate hupdates, not_or_intro hremoval hremovals, rfl⟩

end Stocked

/-- What a new cache and its counters are after writers of different keys. -/
theorem run_writers (config : Config) (hcalls : ∀ call ∈ calls, call.OfWriter)
    (hnodup : (written calls).Nodup) :
    let c := ((new config : Cache κ ν).run calls).2
    let n := c.metrics.core
    c.size = min config.capacity (written calls).length ∧ c.fault? = none ∧
      n.insertions = (written calls).length ∧ n.updates = 0 ∧
      n.evictions = (written calls).length - c.size ∧ n.entries = c.size ∧
      n.requests = calls.countP Call.isLookup := by
  intro c n
  have hnew : Stocked config ∅ (new config : Cache κ ν) := .new config
  have hstocked := hnew.run hcalls
  have hsize : c.size = min config.capacity (written calls).length := by
    rw [hstocked.size_eq, Finset.empty_union, List.toFinset_card_of_nodup hnodup]
  rcases hnew.history_run hcalls hnodup (fun key _ => Finset.notMem_empty key) with
    ⟨hupdate, hremoval, hdropped⟩
  rcases Counters.recordAll_counts (new config : Cache κ ν).metrics.core
    ((new config : Cache κ ν).history calls) with ⟨-, -, -, hupdates, -, hremovals, -⟩
  rw [← core_run, List.count_eq_zero_of_not_mem hupdate] at hupdates
  rw [← core_run, List.count_eq_zero_of_not_mem hremoval] at hremovals
  have hupdates : n.updates = 0 := hupdates
  have hremovals : n.removals = 0 := hremovals
  rcases counters_run config calls with ⟨hrequests, -, -, hputs, hflow, hentries, -⟩
  have hputs : n.insertions + n.updates = calls.countP Call.isPut := hputs
  have hflow : n.insertions = n.evictions + n.removals + _ + n.entries := hflow
  have hentries : n.entries = c.size := hentries
  rw [countP_isPut] at hputs
  refine ⟨hsize, hstocked.sound.inStep.fault?_eq_none, ?_, hupdates, ?_, hentries, hrequests⟩
  · omega
  · omega

end Cache

/-! ## Schedules -/

namespace Shared

variable {κ ν : Type} [DecidableEq κ] [Hashable κ]

/-- Makes calls one after another, each under the lock. -/
def run (s : Shared κ ν) : List (Call κ ν) → List (Answer κ ν) × Shared κ ν
  | [] => ([], s)
  | call :: calls =>
    let (answer, s) := s.perform call
    let (answers, s) := s.run calls
    (answer :: answers, s)

/-- To the cache behind the lock they are a list of calls. -/
theorem run_eq (s : Shared κ ν) (calls : List (Call κ ν)) :
    s.run calls = ((s.inner.run calls).1, ⟨(s.inner.run calls).2⟩) := by
  induction calls generalizing s with
  | nil => rfl
  | cons call calls ih =>
    have hrest := ih ⟨(s.inner.perform call).2⟩
    show ((s.inner.perform call).1 :: (run ⟨(s.inner.perform call).2⟩ calls).1,
      (run ⟨(s.inner.perform call).2⟩ calls).2) = _
    rw [hrest]
    rfl

end Shared

/-- Workers put `count` keys each, all of them different, and get each key back if `reads`
holds. Whatever turns they take at the lock, in the end the cache is as full as the number of
keys makes it, it is consistent, and the counters are those of that many insertions, of which
all that are not in the cache were evicted. -/
theorem writers_settle {ν : Type} (config : Config) (workers count : Nat) (value : Nat → ν)
    (reads : Bool) {calls : List (Call Nat ν)}
    (hcalls : Interleaved (writers value count reads workers) calls) :
    let c := ((⟨.new config⟩ : Shared Nat ν).run calls).2.inner
    let n := c.metrics.core
    c.size = min config.capacity (workers * count) ∧ c.fault? = none ∧
      n.insertions = workers * count ∧ n.updates = 0 ∧
      n.evictions = workers * count - c.size ∧ n.entries = c.size ∧
      n.requests = if reads then workers * count else 0 := by
  intro c n
  have hperm := hcalls.perm
  have hofWriter : ∀ call ∈ calls, call.OfWriter := by
    intro call hcall
    exact ofWriter_writers value count reads workers call (hperm.mem_iff.mp hcall)
  have hwritten : (written calls).Perm (List.range (workers * count)) := by
    rw [← written_writers value count reads workers]
    exact hperm.filterMap _
  have hlength : (written calls).length = workers * count := by
    rw [hwritten.length_eq, List.length_range]
  have hlookups : calls.countP Call.isLookup = if reads then workers * count else 0 := by
    rw [hperm.countP_eq, countP_isLookup_writers]
  have hc : c = ((.new config : Cache Nat ν).run calls).2 := by
    show ((⟨.new config⟩ : Shared Nat ν).run calls).2.inner = _
    rw [Shared.run_eq]
  have hsettled := Cache.run_writers config hofWriter (hwritten.nodup_iff.mpr List.nodup_range)
  rwa [← hc, hlength, hlookups] at hsettled

/-- Two workers with two keys each take turns at a cache for three entries. -/
theorem writers_settle_two_workers :
    let calls := interleave [0, 1, 1, 0, 0] [writerScript 0 2 true, writerScript 2 2 true]
    let c := ((⟨.new ⟨3, .lfu, Nat.succ_pos 2⟩⟩ : Shared Nat Nat).run calls).2.inner
    let n := c.metrics.core
    Interleaved (writers id 2 true 2) calls ∧ c.size = 3 ∧ c.fault? = none ∧ n.insertions = 4 ∧
      n.updates = 0 ∧ n.evictions = 1 ∧ n.entries = 3 ∧ n.requests = 4 := by
  intro calls c n
  have hcalls : Interleaved (writers id 2 true 2) calls := by
    have hscripts : writers id 2 true 2 = [writerScript 0 2 true, writerScript 2 2 true] := by
      rw [writerScript_eq, writerScript_eq]
      rfl
    rw [hscripts]
    exact interleaved_iff.mpr ⟨[0, 1, 1, 0, 0], rfl⟩
  rcases writers_settle ⟨3, .lfu, Nat.succ_pos 2⟩ 2 2 id true hcalls with
    ⟨hsize, hfault, hinsertions, hupdates, hevictions, hentries, hrequests⟩
  have hsize : c.size = 3 := hsize
  rw [hsize] at hevictions hentries
  exact ⟨hcalls, hsize, hfault, hinsertions, hupdates, hevictions, hentries, hrequests⟩

end CacheLab
