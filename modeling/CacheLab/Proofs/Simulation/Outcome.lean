import CacheLab.Proofs.Simulation.RunEnds

/-!
# CacheLab.Proofs.Simulation.Outcome — a simulation accounts for the whole trace

The number of requests of an outcome is not counted while the logs are read, but taken from the
score of some run. It is right since every run replays every request, as long as there is a
run at all.

* `Host.Stores` says what the directory of the logs holds, and `load_ends` that all of it is read.
* `performAll_covers`: the outcome of a simulation that can afford its runs covers the trace. One
  that cannot comes to no outcome (`performAll_fails`).
* `run_of_performAll`: a simulation of good logs gets to its runs. So `run_accounts` can read off
  the outcome.
* `Host.shelf` is a host whose directory holds the same logs all along, to simulate by.
-/

namespace CacheLab

open Std.Do

set_option mvcgen.warning false

variable {limit : Nat} {m : Type → Type} {ps : PostShape} [Monad m] [WPMonad m ps] {host : Host m}

/-- A host whose directory has files with the given names and contents as long as `kept` holds
of its state, and neither reading nor printing ends that. -/
structure Host.Stores (host : Host m) (kept : Assertion ps) (directory : String)
    (names : List String) (content : String → Except OsError ByteArray) : Prop where
  print : ∀ line, ⦃kept⦄ host.print line ⦃⇓ _ => kept⦄
  clock : ⦃kept⦄ host.clock ⦃⇓ _ => kept⦄
  files : ⦃kept⦄ host.files directory ⦃⇓ r => spred(⌜r = .ok names⌝ ∧ kept)⦄
  read : ∀ name ∈ names, ⦃kept⦄ host.read (RequestLog.join directory name)
    ⦃⇓ r => spred(⌜r = content name⌝ ∧ kept)⦄

namespace Experiment

variable {e : Experiment} {kept : Assertion ps} {names : List String}
  {content : String → Except OsError ByteArray}

/-- Reading files gives their contents. -/
theorem readAll_ends (hstores : host.Stores kept e.directory names content) {logs : List String}
    (hlogs : ∀ name ∈ logs, name ∈ names) :
    ⦃kept⦄ (logs.mapM fun name =>
      (liftM (host.read (RequestLog.join e.directory name)) : ExceptT SimulationError m _))
    ⦃⇓ r => spred(⌜r = logs.map content⌝ ∧ kept)⦄ := by
  induction logs with
  | nil =>
    rw [List.mapM_nil]
    mvcgen
    mconstructor
    · mpure_intro
      rfl
    · massumption
  | cons name logs ih =>
    rw [List.mapM_cons]
    have hread := hstores.read name (hlogs name List.mem_cons_self)
    have hrest := ih fun name' hname' => hlogs name' (List.mem_cons_of_mem name hname')
    mvcgen [hread, hrest]
    rename_i hfirst _ hrest
    mconstructor
    · mpure_intro
      rw [hfirst, hrest, List.map_cons]
    · massumption

/-- Logs without a bad entry are read as a whole. -/
theorem load_ends (hhost : host.Reliable) (hstores : host.Stores kept e.directory names content)
    {requests : List Request}
    (hentries : (RequestLog.select names).flatMap (fun name => RequestLog.opened (content name)) =
      requests.map .ok) :
    ⦃kept⦄ e.load host ⦃⇓ r => ⌜r = requests⌝⦄ := by
  have hfiles := hstores.files
  have hlogs : ∀ name ∈ RequestLog.select names, name ∈ names := by
    intro name hname
    exact List.mem_of_mem_filter ((List.mergeSort_perm _ _).mem_iff.mp hname)
  have hread := readAll_ends hstores hlogs
  have hprint := printAll_ends hhost
  have htoList : ({ pending := (RequestLog.select names).map content } : LogStream).toList =
      requests.map .ok := by
    rw [LogStream.toList, Option.getD_none, List.nil_append, List.flatMap_map]
    exact hentries
  mvcgen [load, hfiles]
  case vc1 hnames =>
    cases hnames
    mspec hread
    mframe
    rename_i hpending
    subst hpending
    rw [htoList, readable_eq, firstError?_eq]
    mspec hprint
    mspec

/-- A simulation that can afford its runs comes to an outcome. -/
theorem performAll_covers (hhost : host.Reliable) (hmeter : host.meter.Within limit)
    (fits : 0 < e.capacity) {requests : List Request}
    (hlimit : 2 * requests.length * (limit + 1) < wordCount)
    (hafford : ∀ run ∈ Run.plan e.algorithms e.modes, e.Affords run) :
    let runs := Run.plan e.algorithms e.modes
    ⦃⌜True⌝⦄ e.performAll host fits requests
    ⦃⇓ outcome => ⌜outcome.results.Covers runs runs requests.length ∧
      outcome.requests = (if runs = [] then 0 else requests.length) ∧
      outcome.objects = (requests.map (·.key)).toFinset.card⌝⦄ := by
  intro runs
  have hperform := foldlM_perform_ends hhost hmeter fits requests hlimit runs fun run hrun =>
    ⟨hafford run hrun, (Run.mem_plan.mp hrun).2.2⟩
  rw [performAll]
  mintro _
  mspec lift_ends hhost.clock
  mspec hperform
  mframe
  rename_i r hr
  mspec lift_ends hhost.meter.draws
  rename_i draws
  mspec checked_ends (e.conclusion r (draws 0))
  · mpure_intro
    exact hr.conclusion_ok e (draws 0)
  mspec printAll_ends hhost _
  mspec lift_ends hhost.clock
  have houtcome := Results.outcome?_eq (hr.requests?_eq (draws 0))
  mspec checked_ends (r.outcome? (draws 0) _ _)
  · mpure_intro
    exact ⟨_, houtcome _ _⟩
  mframe
  rename_i outcome hout
  mpure_intro
  rw [houtcome] at hout
  cases hout
  exact ⟨hr, rfl, size_objects _⟩

/-- Otherwise it fails, since something is too large for the first run that it cannot afford. -/
theorem performAll_fails (hhost : host.Reliable) (hmeter : host.meter.Within limit)
    (fits : 0 < e.capacity) {requests : List Request} (hrequests : requests ≠ [])
    (hlimit : 2 * requests.length * (limit + 1) < wordCount) {before behind : List Run} {run : Run}
    (hplan : Run.plan e.algorithms e.modes = before ++ run :: behind)
    (hbefore : ∀ run ∈ before, e.Affords run) (hshort : ¬ e.Affords run) :
    ⦃⌜True⌝⦄ e.performAll host fits requests
    ⦃(fun _ => ⌜False⌝, fun error => ⌜error = .overflow (e.shortage run)⌝,
      ExceptConds.false)⦄ := by
  have hpossible : ∀ run' ∈ before ++ run :: behind, run' ≠ ⟨.referenceLru, .concurrent⟩ := by
    intro run' hrun
    rw [← hplan] at hrun
    exact (Run.mem_plan.mp hrun).2.2
  have hperform := foldlM_perform_fails hhost hmeter fits hrequests hlimit
    (before ++ run :: behind) behind
    (fun run hrun => ⟨hbefore run hrun, hpossible run (List.mem_append_left _ hrun)⟩) hshort
    (hpossible run (List.mem_append_right _ List.mem_cons_self))
  rw [performAll, hplan]
  mintro _
  mspec lift_ends hhost.clock
  mspec hperform
  -- there are no results to go on with
  mframe
  rename_i hnever
  exact hnever.elim

/-- A simulation of logs with at least one request, none of them bad, gets to its runs. -/
theorem run_of_performAll (hhost : host.Reliable)
    (hstores : host.Stores kept e.directory names content) (fits : 0 < e.capacity)
    {requests : List Request}
    (hentries : (RequestLog.select names).flatMap (fun name => RequestLog.opened (content name)) =
      requests.map .ok)
    (hrequests : requests ≠ []) {Q : PostCond Outcome (.except SimulationError ps)}
    (hperform : ⦃⌜True⌝⦄ e.performAll host fits requests ⦃Q⦄) : ⦃kept⦄ e.run host ⦃Q⦄ := by
  have hload := load_ends hhost hstores hentries
  have hempty : ¬ requests.isEmpty = true := by
    rw [List.isEmpty_iff]
    exact hrequests
  rw [run, dif_pos fits]
  mintro _
  mspec lift_ends (hstores.print _)
  mspec lift_ends hstores.clock
  mspec hload
  mframe
  rename_i hsame
  subst hsame
  mspec lift_ends hhost.clock
  mspec lift_ends (hhost.print _)
  rw [if_neg hempty]
  mspec printAll_ends hhost _
  mspec hperform

/-- A simulation of logs with at least one request, none of them bad, comes to an outcome, provided
that there can be the tables of each cache and, where they are needed, a list of the workers,
and that the latencies are not so long that their sum is not a word. The number of objects is
that of the distinct keys; there is a score for each pair of a selected algorithm and a selected
mode, except for the concurrent form of the reference algorithm, and for no other run; and in
each score the hits and misses add up to the number of requests in the logs. This is also the
number of requests of the outcome if any run is planned. Without runs it is zero. -/
theorem run_accounts (hhost : host.Reliable) (hmeter : host.meter.Within limit)
    (hstores : host.Stores kept e.directory names content) (fits : 0 < e.capacity)
    {requests : List Request}
    (hentries : (RequestLog.select names).flatMap (fun name => RequestLog.opened (content name)) =
      requests.map .ok)
    (hrequests : requests ≠ []) (hlimit : 2 * requests.length * (limit + 1) < wordCount)
    (hafford : ∀ run ∈ Run.plan e.algorithms e.modes, e.Affords run) :
    ⦃kept⦄ e.run host
    ⦃⇓ outcome => ⌜
      (Run.plan e.algorithms e.modes ≠ [] → outcome.requests = requests.length) ∧
      (Run.plan e.algorithms e.modes = [] → outcome.requests = 0) ∧
      outcome.objects = (requests.map (·.key)).toFinset.card ∧
      (∀ run : Run, outcome.results[run]?.isSome ↔
        run.algorithm ∈ e.algorithms ∧ run.mode ∈ e.modes ∧ run ≠ ⟨.referenceLru, .concurrent⟩) ∧
      ∀ (run : Run) (score : Score), outcome.results[run]? = some score →
        score.hits + score.misses = requests.length⌝⦄ := by
  have hcovers := run_of_performAll hhost hstores fits hentries hrequests
    (performAll_covers hhost hmeter fits hlimit hafford)
  mvcgen [hcovers]
  mframe
  rename_i outcome houtcome
  rcases houtcome with ⟨hr, hnumber, hobjects⟩
  mpure_intro
  refine ⟨?_, ?_, hobjects, ?_, ?_⟩
  · intro hruns
    rw [hnumber, if_neg hruns]
  · intro hruns
    rw [hnumber, if_pos hruns]
  · intro run
    rw [hr.isSome_iff, Run.mem_plan]
  · intro run score hscore
    exact hr.answered run ((hr.isSome_iff run).mp (hscore ▸ rfl)) score hscore

end Experiment

/-! ## Logs on a shelf -/

/-- A host whose only files are logs, with a clock that stands still. Printed lines are lost. -/
def Host.shelf (logs : List (String × ByteArray)) : Host Id where
  meter := .still
  print _ := return
  clock := return 0
  today := return 0
  files _ := return .ok (logs.map (·.1))
  read path := return (logs.lookup path).elim (.error .notFound) .ok
  write _ _ := return .error (.other 30 "ReadOnlyFilesystem" "Read-only file system")
  makeDirectories _ := return .error (.other 30 "ReadOnlyFilesystem" "Read-only file system")

namespace Host

variable (logs : List (String × ByteArray))

theorem shelf_reliable : (shelf logs).Reliable where
  meter := .still
  print line := by
    mvcgen [shelf]
  clock := by
    mvcgen [shelf]

theorem shelf_stores (directory : String) :
    (shelf logs).Stores ⌜True⌝ directory (logs.map (·.1)) fun name =>
      (logs.lookup (RequestLog.join directory name)).elim (.error .notFound) .ok where
  print := (shelf_reliable logs).print
  clock := (shelf_reliable logs).clock
  files := by
    mvcgen [shelf]
  read name _ := by
    mvcgen [shelf]

end Host

/-- A log of one request. -/
def singleLog : List (String × ByteArray) :=
  [("t.csv", "timestamp,key,size,ttl\n0,a,10,0\n".toUTF8)]

theorem singleLog_entries :
    (RequestLog.select (singleLog.map (·.1))).flatMap (fun name => RequestLog.opened
      ((singleLog.lookup (RequestLog.join "" name)).elim (.error .notFound) .ok)) =
      [⟨0, "a", 10, 0⟩].map .ok := by
  have hlogs : (singleLog.map (·.1)).filter RequestLog.isLog = ["t.csv"] := by decide
  rw [RequestLog.select, hlogs, List.mergeSort_singleton]
  rfl

namespace Experiment

/-- One algorithm twice and one that has no concurrent form: three runs are planned. -/
theorem run_accounts_single_log :
    let host := Host.shelf singleLog
    let e : Experiment := ⟨"", 2, [.lru, .lru, .referenceLru], [.sequential, .concurrent], 2⟩
    let requests : List Request := [⟨0, "a", 10, 0⟩]
    host.Reliable ∧ host.meter.Within 0 ∧ 0 < e.capacity ∧ requests ≠ [] ∧
      2 * requests.length * (0 + 1) < wordCount ∧
      (∀ run ∈ Run.plan e.algorithms e.modes, e.Affords run) ∧
      ∃ outcome, (e.run host).run = .ok outcome ∧ outcome.requests = 1 ∧ outcome.objects = 1 ∧
        outcome.results[(⟨.lru, .concurrent⟩ : Run)]?.isSome ∧
        ∀ (run : Run) (score : Score), outcome.results[run]? = some score →
          score.hits + score.misses = 1 := by
  intro host e requests
  have hhost : host.Reliable := Host.shelf_reliable _
  have hmeter : host.meter.Within 0 := .still
  have hpositive : 0 < e.capacity := Nat.two_pos
  have hrequests : requests ≠ [] := List.cons_ne_nil _ _
  have hlimit : 2 * requests.length * (0 + 1) < wordCount := by decide
  have hworkers : e.workers * Worker.bytes ≤ memoryLimit := by decide
  have htables : ∀ run ∈ Run.plan e.algorithms e.modes,
      e.capacity ≤ run.algorithm.mostEntries := by decide
  have hafford : ∀ run ∈ Run.plan e.algorithms e.modes, e.Affords run := fun run hrun =>
    ⟨htables run hrun, fun _ => hworkers⟩
  have hruns : Run.plan e.algorithms e.modes ≠ [] := by decide
  have hends := run_accounts hhost hmeter (Host.shelf_stores singleLog e.directory) hpositive
    singleLog_entries hrequests hlimit hafford
  rcases result_of_ends hends with ⟨outcome, hrun, hnumber, -, hobjects, hplanned, hanswered⟩
  have hselected : outcome.results[(⟨.lru, .concurrent⟩ : Run)]?.isSome :=
    (hplanned _).mpr (by decide)
  exact ⟨hhost, hmeter, hpositive, hrequests, hlimit, hafford, outcome, hrun, hnumber hruns,
    hobjects, hselected, hanswered⟩

/-- If nothing is planned, there is no run to read the number of requests off. A list of the
greatest number of workers takes too many bytes, and so do tables for the greatest number of
entries. -/
theorem run_accounts_no_run :
    let host := Host.shelf singleLog
    let requests : List Request := [⟨0, "a", 10, 0⟩]
    let idle : Experiment := ⟨"", 2, [.referenceLru], [.concurrent], 1⟩
    let crowded : Experiment := ⟨"", 2, [.lru], [.concurrent], wordCount - 1⟩
    let vast : Experiment := ⟨"", wordCount - 1, [.lru], [.sequential], 1⟩
    (idle.load host = pure requests ∧
      ∃ outcome, (idle.run host).run = .ok outcome ∧ outcome.requests ≠ requests.length) ∧
      (crowded.load host = pure requests ∧
        (crowded.run host).run = .error (.overflow .allocation)) ∧
      vast.load host = pure requests ∧ (vast.run host).run = .error (.overflow .table) := by
  intro host requests idle crowded vast
  have hhost : host.Reliable := Host.shelf_reliable _
  have hload : ∀ e : Experiment, e.directory = "" → e.load host = pure requests := by
    intro e hdirectory
    have hentries := singleLog_entries
    rw [← hdirectory] at hentries
    have hends := load_ends hhost (Host.shelf_stores singleLog e.directory) hentries
    rcases result_of_ends hends with ⟨_, hloaded, rfl⟩
    exact hloaded
  have hrequests : requests ≠ [] := List.cons_ne_nil _ _
  have hrun : ∀ e : Experiment, e.directory = "" → ∀ (fits : 0 < e.capacity)
      {Q : PostCond Outcome (.except SimulationError .pure)},
      ⦃⌜True⌝⦄ e.performAll host fits requests ⦃Q⦄ → ⦃⌜True⌝⦄ e.run host ⦃Q⦄ := by
    intro e hdirectory fits Q hperform
    have hentries := singleLog_entries
    rw [← hdirectory] at hentries
    exact run_of_performAll hhost (Host.shelf_stores singleLog e.directory) fits hentries hrequests
      hperform
  refine ⟨⟨hload idle rfl, ?_⟩, ⟨hload crowded rfl, ?_⟩, hload vast rfl, ?_⟩
  · have hnone : Run.plan idle.algorithms idle.modes = [] := by decide
    have hafford : ∀ run ∈ Run.plan idle.algorithms idle.modes, idle.Affords run := by
      rw [hnone]
      exact List.forall_mem_nil _
    have hends := hrun idle rfl Nat.two_pos (performAll_covers hhost .still _ (by decide) hafford)
    rcases result_of_ends hends with ⟨outcome, hrun, -, hnumber, -⟩
    refine ⟨outcome, hrun, ?_⟩
    rw [hnumber]
    decide
  · have hshort : ¬ crowded.Affords ⟨.lru, .concurrent⟩ := fun h =>
      absurd (h.workers rfl) (by decide)
    have hplan : Run.plan crowded.algorithms crowded.modes = [] ++ ⟨.lru, .concurrent⟩ :: [] := by
      decide
    have hfails := hrun crowded rfl Nat.two_pos (performAll_fails hhost .still _ hrequests
      (by decide) hplan (List.forall_mem_nil _) hshort)
    rcases error_of_fails hfails with ⟨error, hrun, rfl⟩
    exact hrun
  · have hshort : ¬ vast.Affords ⟨.lru, .sequential⟩ := fun h => absurd h.tables (by decide)
    have hplan : Run.plan vast.algorithms vast.modes = [] ++ ⟨.lru, .sequential⟩ :: [] := by
      decide
    have hfails := hrun vast rfl (by decide) (performAll_fails hhost .still _ hrequests
      (by decide) hplan (List.forall_mem_nil _) hshort)
    rcases error_of_fails hfails with ⟨error, hrun, rfl⟩
    exact hrun

end Experiment

end CacheLab
