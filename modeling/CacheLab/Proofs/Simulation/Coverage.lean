import CacheLab.Proofs.Simulation.ConcurrentReplay
import CacheLab.Proofs.Simulation.Pace
import CacheLab.Proofs.Simulation.Reports
import CacheLab.Simulation

/-!
# CacheLab.Proofs.Simulation.Coverage — tallies and results that account for a trace

What a simulation writes down about a trace of `n` requests, before it is asked who runs it:

* `Tally.Covers` is what a replay ends with in either mode: `n` hits and misses, and latencies
  within the limit of the meter. So all sums over it are words (`Tally.Covers.areWords`).
* `Results.Covers` holds while the runs are carried out. To record the tally of a run adds this run
  to those that are done (`Results.Covers.record`), and once all of them are, every report comes
  out and the number of requests is `n` (`Results.Covers.requests?_eq`).
* `Run.mem_plan`, `size_objects` and `readable_eq` say what is planned and what is read.
-/

namespace CacheLab

variable {limit n : Nat}

/-! ## What a replay counts -/

/-- A tally of `n` requests: each of them was looked up and was a hit or a miss, and no more than
these were inserted or led to an eviction. No operation took longer than the limit. -/
structure Tally.Covers (limit n : Nat) (t : Tally) : Prop where
  answered : t.hits + t.misses = n
  lookups : t.gets.count = n
  insertions : t.puts.count ≤ n
  evictions : t.evictions ≤ n
  paced : t.Paced limit

namespace Tally.Covers

variable {t : Tally}

/-- All requests are done, so they were counted. -/
theorem of_progress {requests : List Request} {s s' : Subject}
    (hprogress : Progress (.waiting requests, s) (.done t.counts, s')) (hpaced : t.Paced limit) :
    t.Covers limit requests.length := by
  rcases hprogress with ⟨visits, _, hadvance⟩
  rcases hadvance.numbers with ⟨hfound, hlookups, hinsertions, hevictions⟩
  have hfound : t.hits + t.misses = requests.length := hfound
  have hinsertions : t.puts.count = t.misses := hinsertions
  have hevictions : t.evictions ≤ t.puts.count := hevictions
  constructor
  case answered => exact hfound
  case lookups => exact hlookups
  case insertions => omega
  case evictions => omega
  case paced => exact hpaced

/-- If even the limit for all operations is a word, then so are all sums. -/
theorem areWords (ht : t.Covers limit n) (hlimit : 2 * n * (limit + 1) < wordCount) :
    n < wordCount ∧ t.latencies.AreWords := by
  have hlookups := ht.lookups
  have hinsertions := ht.insertions
  have hgets : t.gets.total ≤ limit * n := hlookups ▸ ht.paced.gets
  have hputs : t.puts.total ≤ limit * n :=
    Nat.le_trans ht.paced.puts (Nat.mul_le_mul_left limit hinsertions)
  have hall : 2 * n * (limit + 1) = 2 * (limit * n) + 2 * n := by
    rw [Nat.mul_succ, Nat.mul_assoc, Nat.mul_comm n limit]
  refine ⟨by omega, ?_, ?_⟩
  · show t.gets.count + t.puts.count < wordCount
    omega
  · show t.gets.total + t.puts.total < wordCount
    omega

end Tally.Covers

/-! ## Recorded scores -/

namespace Results

variable {r : Results} {planned done : List Run} {run : Run}

/-- The end of a run sets its whole score and leaves the others alone. -/
theorem getElem?_record (run' : Run) (hits misses evictions millis : Nat) (latencies : Latencies) :
    (((r.recordCounts run hits misses evictions).recordTime run millis).recordLatencies run
      latencies)[run']? =
      if run = run' then r[run]?.map fun _ => ⟨hits, misses, evictions, millis, latencies⟩
      else r[run']? := by
  by_cases hrun : run = run'
  · subst hrun
    rw [if_pos rfl, recordLatencies, getElem?_update, if_pos rfl, recordTime, getElem?_update,
      if_pos rfl, recordCounts, getElem?_update, if_pos rfl, Option.map_map, Option.map_map]
    rfl
  · rw [if_neg hrun, recordLatencies, getElem?_update, if_neg hrun, recordTime, getElem?_update,
      if_neg hrun, recordCounts, getElem?_update, if_neg hrun]

/-- A score after the end of a run is that of this run, or it was there before. -/
theorem of_getElem?_record {run' : Run} {hits misses evictions millis : Nat} {latencies : Latencies}
    {score : Score}
    (hscore : (((r.recordCounts run hits misses evictions).recordTime run millis).recordLatencies
      run latencies)[run']? = some score) :
    score = ⟨hits, misses, evictions, millis, latencies⟩ ∨ run ≠ run' ∧ r[run']? = some score := by
  rw [getElem?_record] at hscore
  by_cases hrun : run = run'
  · rw [if_pos hrun, Option.map_eq_some_iff] at hscore
    rcases hscore with ⟨_, _, rfl⟩
    exact Or.inl rfl
  · rw [if_neg hrun] at hscore
    exact Or.inr ⟨hrun, hscore⟩

/-- At first all scores are empty. -/
theorem getElem?_new {runs : List Run} {score : Score} (hscore : (new runs)[run]? = some score) :
    score = .empty := by
  have hinsert : ∀ (r : Results), (∀ score, r[run]? = some score → score = .empty) →
      ∀ score, (r.insertMany (runs.map (·, Score.empty)))[run]? = some score →
        score = .empty := by
    clear hscore
    induction runs with
    | nil =>
      intro r hr score hscore
      exact hr score hscore
    | cons first runs ih =>
      intro r hr
      rw [List.map_cons, Std.TreeMap.insertMany_cons]
      apply ih
      intro score hscore
      rw [Std.TreeMap.getElem?_insert] at hscore
      by_cases hfirst : compare first run = .eq
      · rw [if_pos hfirst] at hscore
        exact (Option.some.inj hscore).symm
      · rw [if_neg hfirst] at hscore
        exact hr score hscore
  rw [new, Std.TreeMap.ofList_eq_insertMany_empty] at hscore
  apply hinsert _ _ score hscore
  intro score' hscore'
  rw [Std.TreeMap.getElem?_emptyc] at hscore'
  cases hscore'

/-- The planned runs have a score, all sums are words, and the runs that are done have
answered `n` requests. -/
structure Covers (r : Results) (planned done : List Run) (n : Nat) : Prop where
  isSome_iff : ∀ run, r[run]?.isSome ↔ run ∈ planned
  areWords : r.AreWords
  answered : ∀ run ∈ done, ∀ score, r[run]? = some score → score.hits + score.misses = n

namespace Covers

theorem new (planned : List Run) (n : Nat) : (Results.new planned).Covers planned [] n where
  isSome_iff := isSome_getElem?_new planned
  areWords _ _ hscore := getElem?_new hscore ▸ Score.AreWords.empty
  answered _ hdone := nomatch hdone

theorem record (hr : r.Covers planned done n) (run : Run) {t : Tally} (ht : t.Covers limit n)
    (hlimit : 2 * n * (limit + 1) < wordCount) (evictions millis : Nat) :
    (((r.recordCounts run t.hits t.misses evictions).recordTime run millis).recordLatencies run
      t.latencies).Covers planned (done ++ [run]) n := by
  rcases ht.areWords hlimit with ⟨hn, hlatencies⟩
  constructor
  case isSome_iff =>
    intro run'
    rw [← hr.isSome_iff, getElem?_record]
    by_cases hrun : run = run'
    · rw [if_pos hrun, Option.isSome_map, hrun]
    · rw [if_neg hrun]
  case areWords =>
    intro run' score hscore
    rcases of_getElem?_record hscore with rfl | ⟨_, hbefore⟩
    · exact ⟨ht.answered ▸ hn, hlatencies⟩
    · exact hr.areWords run' score hbefore
  case answered =>
    intro run' hdone score hscore
    rcases of_getElem?_record hscore with rfl | ⟨hrun, hbefore⟩
    · exact ht.answered
    · have hearlier : run' ∈ done := (List.mem_append.mp hdone).resolve_right fun hmem =>
        hrun (List.mem_singleton.mp hmem).symm
      exact hr.answered run' hearlier score hbefore

/-- Once all runs are done, the number of requests is the one that they agree on. -/
theorem requests?_eq (hr : r.Covers planned planned n) (pick : Nat) :
    r.requests? pick = .ok (if planned = [] then 0 else n) := by
  have hempty : r.isEmpty = true ↔ planned = [] := by
    rw [Std.TreeMap.isEmpty_iff_forall_not_mem, List.eq_nil_iff_forall_not_mem]
    apply forall_congr'
    intro run
    rw [← hr.isSome_iff, Std.TreeMap.isSome_getElem?_iff_mem]
  have hanswered : ∀ (run : Run) (score : Score), r[run]? = some score →
      score.hits + score.misses = n := by
    intro run score hscore
    exact hr.answered run ((hr.isSome_iff run).mp (hscore ▸ rfl)) score hscore
  rw [Results.requests?_eq hr.areWords hanswered]
  simp only [hempty]

/-- So all reports come out. -/
theorem conclusion_ok (hr : r.Covers planned planned n) (e : Experiment) (pick : Nat) :
    ∃ lines, e.conclusion r pick = .ok lines := by
  rcases summary?_ok hr.areWords (hr.requests?_eq pick) with ⟨summary, hsummary⟩
  rcases comparison?_ok hr.areWords with ⟨comparison, hcomparison⟩
  rw [Experiment.conclusion, hsummary, hcomparison]
  by_cases hmodes : 1 < e.modes.length
  · exact ⟨_, if_pos hmodes⟩
  · exact ⟨_, if_neg hmodes⟩

end Covers

end Results

/-- Planned is what was selected, apart from the concurrent form of the reference algorithm. -/
theorem Run.mem_plan {algorithms : List Algorithm} {modes : List Mode} {run : Run} :
    run ∈ Run.plan algorithms modes ↔
      run.algorithm ∈ algorithms ∧ run.mode ∈ modes ∧ run ≠ ⟨.referenceLru, .concurrent⟩ := by
  rw [Run.plan, List.mem_flatMap]
  constructor
  · rintro ⟨algorithm, halgorithm, hrun⟩
    rcases List.mem_filter.mp hrun with ⟨hmem, hpossible⟩
    rcases List.mem_map.mp hmem with ⟨mode, hmode, rfl⟩
    exact ⟨halgorithm, hmode, of_decide_eq_true hpossible⟩
  · rintro ⟨halgorithm, hmode, hpossible⟩
    refine ⟨run.algorithm, halgorithm, List.mem_filter.mpr ⟨?_, decide_eq_true hpossible⟩⟩
    exact List.mem_map.mpr ⟨run.mode, hmode, rfl⟩

/-! ## The trace -/

/-- Requests that are inserted into a set of keys enlarge it by the new ones among theirs. -/
theorem size_objects (requests : List Request) :
    (objects requests).size = (requests.map (·.key)).toFinset.card := by
  have hinsert : ∀ (keys : Std.HashSet String) (known : Finset String),
      (∀ key, key ∈ keys ↔ key ∈ known) → keys.size = known.card →
        (requests.foldl (fun keys r => keys.insert r.key) keys).size =
          (known ∪ (requests.map (·.key)).toFinset).card := by
    induction requests with
    | nil =>
      intro keys known _ hsize
      rw [List.map_nil, List.toFinset_nil, Finset.union_empty]
      exact hsize
    | cons request requests ih =>
      intro keys known hmem hsize
      rw [List.foldl_cons, ih (keys.insert request.key) (insert request.key known)]
      · rw [List.map_cons, List.toFinset_cons, Finset.insert_union, Finset.union_insert]
      · intro key
        rw [Std.HashSet.mem_insert, beq_iff_eq, hmem, Finset.mem_insert, eq_comm]
      · rw [Std.HashSet.size_insert, Finset.card_insert_eq_ite, hsize]
        simp only [hmem]
  rw [objects, hinsert {} ∅, Finset.empty_union]
  · intro key
    constructor
    · intro hmem
      exact absurd hmem Std.HashSet.not_mem_empty
    · intro hmem
      exact absurd hmem (Finset.notMem_empty key)
  · rfl

/-- If no entry is bad, then all of them are read. -/
theorem readable_eq (requests : List Request) : readable (requests.map .ok) = requests := by
  induction requests with
  | nil => rfl
  | cons request requests ih => exact congrArg (request :: ·) ih

theorem firstError?_eq (requests : List Request) : firstError? (requests.map .ok) = none := by
  induction requests with
  | nil => rfl
  | cons request requests ih => exact ih

end CacheLab
