import Mathlib.Data.List.Basic
import CacheLab.Proofs.Csv
import CacheLab.Proofs.Simulation.Coverage

/-!
# CacheLab.Proofs.Simulation.Recording — results do not depend on the order of recording

A `Recording` sets one part of the score of one run. Two recordings for different runs do not
touch each other, so what a run has in the end is its `lastScore`: of each part the value that was
recorded last, and zeros where nothing was (`Results.getElem?_recordAll`).

The table lists the scores by run, so it is determined by the planned runs and their last scores
(`Results.table?_recordAll`). It comes out if all sums over these scores are words, and only then
(`Results.table?_ok_iff`). Planning and recording in another order gives the same table
(`Results.table?_reordered`), and `Results.table_recorded` is the whole of this.
-/

namespace CacheLab

/-! ## Recordings -/

/-- Something that is recorded for a run. -/
inductive Recording where
  | counts (run : Run) (hits misses evictions : Nat)
  | time (run : Run) (millis : Nat)
  | latencies (run : Run) (measured : Latencies)
deriving DecidableEq, Repr

namespace Recording

/-- The run that it is recorded for. -/
def run : Recording → Run
  | counts run _ _ _ => run
  | time run _ => run
  | latencies run _ => run

/-- The change of the score of this run. -/
def apply : Recording → Score → Score
  | counts _ hits misses evictions, s => { s with hits, misses, evictions }
  | time _ millis, s => { s with millis }
  | latencies _ measured, s => { s with latencies := measured }

/-- The hits, misses and evictions that are recorded for a run. -/
def counts? (run : Run) : Recording → Option (Nat × Nat × Nat)
  | counts run' hits misses evictions =>
    if run' = run then some (hits, misses, evictions) else none
  | _ => none

/-- The time that is recorded for a run. -/
def millis? (run : Run) : Recording → Option Nat
  | time run' millis => if run' = run then some millis else none
  | _ => none

/-- The latencies that are recorded for a run. -/
def latencies? (run : Run) : Recording → Option Latencies
  | latencies run' measured => if run' = run then some measured else none
  | _ => none

end Recording

/-- The score of the values that were recorded last for a run, with zeros for what never was. -/
def lastScore (recordings : List Recording) (run : Run) : Score :=
  let counts := (recordings.filterMap (·.counts? run)).getLast?.getD (0, 0, 0)
  { hits := counts.1
    misses := counts.2.1
    evictions := counts.2.2
    millis := (recordings.filterMap (·.millis? run)).getLast?.getD 0
    latencies := (recordings.filterMap (·.latencies? run)).getLast?.getD {} }

theorem getLast?_filterMap_concat {α β : Type} (f : α → Option β) (l : List α) (a : α) :
    ((l ++ [a]).filterMap f).getLast? = (f a).or (l.filterMap f).getLast? := by
  rw [List.filterMap_append, List.getLast?_append, List.filterMap_cons, List.filterMap_nil]
  cases f a <;> rfl

/-- One more recording changes the score of its run. -/
theorem lastScore_concat (recordings : List Recording) (recording : Recording) (run : Run) :
    lastScore (recordings ++ [recording]) run =
      if recording.run = run then recording.apply (lastScore recordings run)
      else lastScore recordings run := by
  simp only [lastScore, getLast?_filterMap_concat, Recording.counts?, Recording.millis?,
    Recording.latencies?]
  cases recording with
  | counts run' => by_cases hrun : run' = run <;> simp [Recording.run, Recording.apply, hrun]
  | time run' => by_cases hrun : run' = run <;> simp [Recording.run, Recording.apply, hrun]
  | latencies run' => by_cases hrun : run' = run <;> simp [Recording.run, Recording.apply, hrun]

/-- What is recorded for other runs does not matter. -/
theorem lastScore_filter (recordings : List Recording) (run : Run) :
    lastScore (recordings.filter (·.run = run)) run = lastScore recordings run := by
  induction recordings using List.reverseRecOn with
  | nil => rfl
  | append_singleton recordings recording ih =>
    rw [List.filter_append, lastScore_concat]
    by_cases hrun : recording.run = run
    · have hkept : [recording].filter (·.run = run) = [recording] := by simp [hrun]
      rw [if_pos hrun, hkept, lastScore_concat, if_pos hrun, ih]
    · have hdropped : [recording].filter (·.run = run) = [] := by simp [hrun]
      rw [if_neg hrun, hdropped, List.append_nil, ih]

namespace Results

/-- Records something. -/
def record (r : Results) : Recording → Results
  | .counts run hits misses evictions => r.recordCounts run hits misses evictions
  | .time run millis => r.recordTime run millis
  | .latencies run measured => r.recordLatencies run measured

/-- Records one thing after the other. -/
def recordAll (r : Results) (recordings : List Recording) : Results := recordings.foldl record r

theorem record_eq (r : Results) (recording : Recording) :
    r.record recording = r.update recording.run recording.apply := by
  cases recording <;> rfl

variable {runs : List Run} {recordings : List Recording} {run : Run}

/-- A planned run ends with the values that were recorded last, another one has no score. -/
theorem getElem?_recordAll (runs : List Run) (recordings : List Recording) (run : Run) :
    ((new runs).recordAll recordings)[run]? =
      if run ∈ runs then some (lastScore recordings run) else none := by
  -- from the end, because the last recording for a run is the one that stays
  induction recordings using List.reverseRecOn generalizing run with
  | nil =>
    show (new runs)[run]? = _
    have hplanned := isSome_getElem?_new runs run
    cases hscore : (new runs)[run]? with
    | none =>
      rw [hscore] at hplanned
      rw [if_neg fun hmem => nomatch hplanned.mpr hmem]
    | some score =>
      rw [hscore] at hplanned
      rw [if_pos (hplanned.mp rfl), getElem?_new hscore]
      rfl
  | append_singleton recordings recording ih =>
    rw [recordAll, List.foldl_append]
    show (((new runs).recordAll recordings).record recording)[run]? = _
    rw [record_eq, getElem?_update, ih, ih, lastScore_concat]
    by_cases hrun : recording.run = run
    · rw [if_pos hrun, if_pos hrun, hrun]
      split_ifs <;> rfl
    · rw [if_neg hrun, if_neg hrun]

/-- Results list the planned runs in order, each with its last score. -/
theorem toList_recordAll (runs : List Run) (recordings : List Recording) :
    ((new runs).recordAll recordings).toList =
      ((new runs).recordAll recordings).keys.map fun run => (run, lastScore recordings run) := by
  rw [← Std.TreeMap.map_fst_toList_eq_keys, List.map_map]
  refine (List.map_id _).symm.trans (List.map_congr_left fun entry hmem => ?_)
  rcases entry with ⟨run, score⟩
  have hscore := Std.TreeMap.mem_toList_iff_getElem?_eq_some.mp hmem
  rw [getElem?_recordAll] at hscore
  split_ifs at hscore
  cases hscore
  rfl

theorem mem_keys_recordAll :
    run ∈ ((new runs).recordAll recordings).keys ↔ run ∈ runs := by
  rw [Std.TreeMap.mem_keys, ← Std.TreeMap.isSome_getElem?_iff_mem, getElem?_recordAll]
  split_ifs with hmem
  · exact iff_of_true rfl hmem
  · exact iff_of_false nofun hmem

/-! ## Rows of the table -/

/-- A row comes out if all sums over the score are words, and only then. -/
theorem tableRow_ok_iff {s : Score} : (∃ row, tableRow run s = .ok row) ↔ s.AreWords := by
  constructor
  · rintro ⟨row, hrow⟩
    rcases of_bind_eq_ok hrow with ⟨hitRate, hhitRate, hrow⟩
    rcases of_bind_eq_ok hhitRate with ⟨requests, hrequests, -⟩
    rcases of_bind_eq_ok hrow with ⟨count, hcount, hrow⟩
    rcases of_bind_eq_ok hrow with ⟨rate, hrate, -⟩
    rcases of_bind_eq_ok hrate with ⟨total, htotal, -⟩
    exact ⟨addWords_ok_iff.mp ⟨_, hrequests⟩, addWords_ok_iff.mp ⟨_, hcount⟩,
      addWords_ok_iff.mp ⟨_, htotal⟩⟩
  · intro hs
    rcases hs.hitRate?_ok with ⟨hitRate, hhitRate⟩
    rcases hs.latencies.rate?_ok with ⟨rate, hrate⟩
    rcases hs.latencies.mean?_ok with ⟨mean, hmean⟩
    rw [tableRow, hhitRate, hs.latencies.count?_eq, hrate, hmean]
    exact ⟨_, rfl⟩

/-- A row begins with the name of the algorithm, so it is no comment. -/
theorem readable_tableRow {s : Score} {row : List String} (hrow : tableRow run s = .ok row) :
    Csv.Readable (row.map (·.toList)) := by
  rcases of_bind_eq_ok hrow with ⟨hitRate, -, hrow⟩
  rcases of_bind_eq_ok hrow with ⟨count, -, hrow⟩
  rcases of_bind_eq_ok hrow with ⟨rate, -, hrow⟩
  rcases of_bind_eq_ok hrow with ⟨mean, -, hrow⟩
  cases hrow
  refine ⟨run.algorithm.name.toList, _, rfl, ?_⟩
  cases run.algorithm <;> decide

/-! ## The table -/

/-- The table has a row for each planned run, in order, with its last score. -/
theorem table?_recordAll (runs : List Run) (recordings : List Recording) :
    ((new runs).recordAll recordings).table? =
      (((new runs).recordAll recordings).keys.mapM fun run =>
        tableRow run (lastScore recordings run)).map (Csv.table columns) := by
  rw [table?, toList_recordAll, List.mapM_map]
  show (do return Csv.table columns (← ((new runs).recordAll recordings).keys.mapM fun run =>
    tableRow run (lastScore recordings run))) = _
  cases ((new runs).recordAll recordings).keys.mapM fun run =>
      tableRow run (lastScore recordings run) with
  | error e => rfl
  | ok rows => rfl

/-- It comes out if all sums over these scores are words, and only then. -/
theorem table?_ok_iff : (∃ text, ((new runs).recordAll recordings).table? = .ok text) ↔
    ∀ run ∈ runs, (lastScore recordings run).AreWords := by
  rw [table?_recordAll]
  constructor
  · rintro ⟨text, htext⟩ run hrun
    cases hrows : ((new runs).recordAll recordings).keys.mapM fun run =>
        tableRow run (lastScore recordings run) with
    | error e =>
      rw [hrows] at htext
      cases htext
    | ok rows =>
      exact tableRow_ok_iff.mp (ok_of_mapM_eq_ok hrows (mem_keys_recordAll.mpr hrun))
  · intro hwords
    rcases mapM_ok fun run hrun =>
      tableRow_ok_iff.mpr (hwords run (mem_keys_recordAll.mp hrun)) with ⟨rows, hrows⟩
    rw [hrows]
    exact ⟨_, rfl⟩

theorem areWords_recordAll (hwords : ∀ run ∈ runs, (lastScore recordings run).AreWords) :
    ((new runs).recordAll recordings).AreWords := by
  intro run score hscore
  rw [getElem?_recordAll] at hscore
  split_ifs at hscore with hrun
  cases hscore
  exact hwords run hrun

/-- Read back, it is the headings and the rows. -/
theorem records_tableRows {planned : List Run} {rows : List (List String)}
    (hrows : (planned.mapM fun run => tableRow run (lastScore recordings run)) = .ok rows)
    (hne : rows ≠ []) :
    (Csv.records (Csv.table columns rows).toUTF8.data.toList).map (·.fields) =
      (columns :: rows).map (·.map fun field => Text.Utf8.encode field.toList) := by
  refine Csv.records_table hne (by decide) (List.forall_mem_cons.mpr ⟨⟨_, _, rfl, by decide⟩, ?_⟩)
  intro row hrow
  rcases mem_of_mapM_eq_ok hrows hrow with ⟨run, _, hrun⟩
  exact readable_tableRow hrun

/-- Runs in strictly increasing order are determined by their members. -/
theorem eq_of_ordered {planned planned' : List Run}
    (hplanned : planned.Pairwise fun a b => compare a b = .lt)
    (hplanned' : planned'.Pairwise fun a b => compare a b = .lt)
    (hmem : ∀ run, run ∈ planned ↔ run ∈ planned') : planned = planned' := by
  have hne : ∀ {a b : Run}, compare a b = .lt → a ≠ b := by
    rintro a b hlt rfl
    have hself : compare a a = .eq := Std.ReflCmp.compare_self
    cases hself.symm.trans hlt
  -- no run is below itself, so neither list has a run twice
  have hperm : planned.Perm planned' :=
    (List.perm_ext_iff_of_nodup (hplanned.imp hne) (hplanned'.imp hne)).mpr hmem
  refine hperm.eq_of_pairwise (fun a b _ _ hab hba => ?_) hplanned hplanned'
  have hswap : compare a b = (compare b a).swap := Std.OrientedCmp.eq_swap
  rw [hab, hba] at hswap
  cases hswap

/-- Planning and recording in another order gives the same table, as long as the recordings for
one run keep their order. -/
theorem table?_reordered {runs' : List Run} {recordings' : List Recording}
    (hruns : ∀ run, run ∈ runs' ↔ run ∈ runs)
    (hrecordings : ∀ run,
      recordings'.filter (·.run = run) = recordings.filter (·.run = run)) :
    ((new runs').recordAll recordings').table? = ((new runs).recordAll recordings).table? := by
  have hkeys : ((new runs').recordAll recordings').keys = ((new runs).recordAll recordings).keys :=
    eq_of_ordered Std.TreeMap.ordered_keys Std.TreeMap.ordered_keys fun run => by
      rw [mem_keys_recordAll, mem_keys_recordAll, hruns]
  have hscore : lastScore recordings' = lastScore recordings := funext fun run => by
    rw [← lastScore_filter recordings', hrecordings, lastScore_filter]
  rw [table?_recordAll, table?_recordAll, hkeys, hscore]

/-- The table has a row for each planned run, in strictly increasing order, and read back it is
these rows below the headings. A row shows what was recorded last for its run. The table comes out
if all sums over these values are words, and only then; the outcome of the simulation then comes
out too and gives the same table again. It does not depend on the order in which runs were planned
and on the order of recordings for different runs. -/
theorem table_recorded (runs : List Run) (recordings : List Recording) :
    let r := (new runs).recordAll recordings
    let row run := tableRow run (lastScore recordings run)
    ∃ planned : List Run, planned.Pairwise (fun a b => compare a b = .lt) ∧
      (∀ run, run ∈ planned ↔ run ∈ runs) ∧
      r.table? = (planned.mapM row).map (Csv.table columns) ∧
      (∀ rows, planned.mapM row = .ok rows → rows ≠ [] →
        (Csv.records (Csv.table columns rows).toUTF8.data.toList).map (·.fields) =
          (columns :: rows).map (·.map fun field => Text.Utf8.encode field.toList)) ∧
      ((∃ text, r.table? = .ok text) ↔ ∀ run ∈ runs, (lastScore recordings run).AreWords) ∧
      (∀ text, r.table? = .ok text → ∀ pick nanos objects, ∃ outcome,
        r.outcome? pick nanos objects = .ok outcome ∧ outcome.results.table? = .ok text) ∧
      ∀ (runs' : List Run) (recordings' : List Recording), (∀ run, run ∈ runs' ↔ run ∈ runs) →
        (∀ run, recordings'.filter (·.run = run) = recordings.filter (·.run = run)) →
        ((new runs').recordAll recordings').table? = r.table? := by
  intro r row
  refine ⟨r.keys, Std.TreeMap.ordered_keys, fun run => mem_keys_recordAll,
    table?_recordAll runs recordings, fun rows => records_tableRows, table?_ok_iff, ?_,
    fun runs' recordings' => table?_reordered⟩
  intro text htext pick nanos objects
  have hwords := areWords_recordAll (table?_ok_iff.mp ⟨text, htext⟩)
  rcases requests?_ok hwords pick with ⟨n, hn⟩
  exact ⟨_, outcome?_eq hn nanos objects, htext⟩

/-- Two runs, planned and recorded in one order and in another, where one is planned twice. -/
theorem table_recorded_two_orders :
    ((new [⟨.lru, .sequential⟩, ⟨.fifo, .sequential⟩, ⟨.lru, .sequential⟩]).recordAll
      [.time ⟨.fifo, .sequential⟩ 5, .counts ⟨.lru, .sequential⟩ 9 9 9,
        .counts ⟨.lru, .sequential⟩ 1 1 0]).table? =
    ((new [⟨.fifo, .sequential⟩, ⟨.lru, .sequential⟩]).recordAll
      [.counts ⟨.lru, .sequential⟩ 9 9 9, .counts ⟨.lru, .sequential⟩ 1 1 0,
        .time ⟨.fifo, .sequential⟩ 5]).table? := by
  rcases table_recorded [⟨.fifo, .sequential⟩, ⟨.lru, .sequential⟩]
    [.counts ⟨.lru, .sequential⟩ 9 9 9, .counts ⟨.lru, .sequential⟩ 1 1 0,
      .time ⟨.fifo, .sequential⟩ 5] with ⟨planned, _, _, _, _, _, _, hreordered⟩
  refine hreordered _ _ (fun run => ?_) fun run => ?_
  · rcases run with ⟨_ | _, _ | _⟩ <;> decide
  · rcases run with ⟨_ | _, _ | _⟩ <;> decide

/-- A hit more than there are words, and there is no table. -/
theorem no_table_of_large_counts :
    ¬ ∃ text, ((new [⟨.lru, .sequential⟩]).recordAll
      [.counts ⟨.lru, .sequential⟩ 18446744073709551615 1 0]).table? = .ok text := by
  rw [table?_ok_iff]
  intro hwords
  exact absurd (hwords ⟨.lru, .sequential⟩ List.mem_cons_self).requests_lt (by decide)

end Results

end CacheLab
