import CacheLab.Proofs.Fallible
import CacheLab.Proofs.Simulation.Results

/-!
# CacheLab.Proofs.Simulation.Reports — when the reports come out

Reports add the numbers of a score, and an addition may leave the range of words. `Score.AreWords`
says that none of them does. If it holds of all scores, the summary, the comparison and the
outcome come out (`Results.summary?_ok`, `Results.comparison?_ok`, `Results.outcome?_eq`).

The number of requests is read off a run that chance picks, and any run may be picked
(`Results.exists_pick`). So it is the number of requests of every run if they all agree, and zero
if there is no run (`Results.requests?_eq`).
-/

namespace CacheLab

/-! ## Latencies -/

/-- The sums over both kinds of operations are words. -/
structure Latencies.AreWords (l : Latencies) : Prop where
  count_lt : l.gets.count + l.puts.count < wordCount
  total_lt : l.gets.total + l.puts.total < wordCount

namespace Latencies.AreWords

variable {l : Latencies}

theorem count?_eq (hl : l.AreWords) : l.count? = .ok (l.gets.count + l.puts.count) :=
  addWords_eq hl.count_lt

theorem total?_eq (hl : l.AreWords) : l.total? = .ok (l.gets.total + l.puts.total) :=
  addWords_eq hl.total_lt

theorem mean?_ok (hl : l.AreWords) : ∃ x, l.mean? = .ok x := by
  rw [mean?, hl.count?_eq, hl.total?_eq]
  by_cases hzero : l.gets.count + l.puts.count = 0
  · exact ⟨0.0, if_pos hzero⟩
  · exact ⟨_, if_neg hzero⟩

theorem rate?_ok (hl : l.AreWords) : ∃ x, l.rate? = .ok x := by
  rw [rate?, hl.count?_eq, hl.total?_eq]
  by_cases hzero : l.gets.total + l.puts.total = 0
  · exact ⟨0.0, if_pos hzero⟩
  · exact ⟨_, if_neg hzero⟩

theorem lines?_ok (hl : l.AreWords) : ∃ lines, l.lines? = .ok lines := by
  rcases hl.mean?_ok with ⟨mean, hmean⟩
  rcases hl.rate?_ok with ⟨rate, hrate⟩
  rw [lines?, seconds?, hl.count?_eq, hl.total?_eq, hrate, hmean]
  exact ⟨_, rfl⟩

end Latencies.AreWords

/-! ## Scores -/

/-- The sums over a score are words. -/
structure Score.AreWords (s : Score) : Prop where
  requests_lt : s.hits + s.misses < wordCount
  latencies : s.latencies.AreWords

namespace Score.AreWords

variable {s : Score}

theorem empty : Score.empty.AreWords where
  requests_lt := Nat.succ_pos _
  latencies := ⟨Nat.succ_pos _, Nat.succ_pos _⟩

theorem requests?_eq (hs : s.AreWords) : s.requests? = .ok (s.hits + s.misses) :=
  addWords_eq hs.requests_lt

theorem hitRate?_ok (hs : s.AreWords) : ∃ x, s.hitRate? = .ok x := by
  rw [hitRate?, hs.requests?_eq]
  by_cases hzero : s.hits + s.misses = 0
  · exact ⟨0.0, if_pos hzero⟩
  · exact ⟨_, if_neg hzero⟩

end Score.AreWords

/-! ## Results -/

namespace Results

variable {r : Results}

/-- All scores have sums that are words. -/
def AreWords (r : Results) : Prop :=
  ∀ (run : Run) (score : Score), r[run]? = some score → score.AreWords

theorem summaryLine_ok {s : Score} (run : Run) (hs : s.AreWords) :
    ∃ line, summaryLine run s = .ok line := by
  rcases hs.hitRate?_ok with ⟨hitRate, hhitRate⟩
  rcases hs.latencies.rate?_ok with ⟨rate, hrate⟩
  rw [summaryLine, hhitRate, hs.latencies.count?_eq, hrate]
  exact ⟨_, rfl⟩

/-- A run is picked if there is one. -/
theorem picked_cases (r : Results) (pick : Nat) :
    (r.isEmpty = true ∧ r.toList[pick % r.size]? = none) ∨
      ∃ run score, r[run]? = some score ∧ r.isEmpty = false ∧
        r.toList[pick % r.size]? = some (run, score) := by
  rw [← Std.TreeMap.length_toList, ← Std.TreeMap.isEmpty_toList]
  cases hlist : r.toList with
  | nil => exact Or.inl ⟨rfl, rfl⟩
  | cons first rest =>
    have hlt : pick % (first :: rest).length < (first :: rest).length :=
      Nat.mod_lt pick (Nat.succ_pos _)
    have hpicked := List.getElem?_eq_getElem hlt
    have hmem : (first :: rest)[pick % (first :: rest).length] ∈ r.toList := by
      rw [hlist]
      exact List.getElem_mem hlt
    exact Or.inr ⟨_, _, Std.TreeMap.mem_toList_iff_getElem?_eq_some.mp hmem, rfl, hpicked⟩

/-- Each run may be the one that is picked. -/
theorem exists_pick {run : Run} {score : Score} (hscore : r[run]? = some score) :
    ∃ pick, r.requests? pick = score.requests? := by
  have hmem := Std.TreeMap.mem_toList_iff_getElem?_eq_some.mpr hscore
  rcases List.mem_iff_getElem?.mp hmem with ⟨pick, hpick⟩
  have hlt : pick < r.size := by
    rw [← Std.TreeMap.length_toList]
    exact (List.getElem?_eq_some_iff.mp hpick).1
  refine ⟨pick, ?_⟩
  rw [requests?, Nat.mod_eq_of_lt hlt, hpick]
  rfl

theorem requests?_ok (hr : r.AreWords) (pick : Nat) : ∃ n, r.requests? pick = .ok n := by
  rcases r.picked_cases pick with ⟨_, hnone⟩ | ⟨run, score, hscore, _, hpicked⟩
  · rw [requests?, hnone]
    exact ⟨0, rfl⟩
  · rw [requests?, hpicked]
    exact ⟨_, (hr run score hscore).requests?_eq⟩

/-- The number of requests is the same for every run, or zero without runs, whichever is picked. -/
theorem requests?_eq (hr : r.AreWords) {n : Nat}
    (hn : ∀ (run : Run) (score : Score), r[run]? = some score → score.hits + score.misses = n)
    (pick : Nat) : r.requests? pick = .ok (if r.isEmpty then 0 else n) := by
  rcases r.picked_cases pick with ⟨hempty, hnone⟩ | ⟨run, score, hscore, hempty, hpicked⟩
  · rw [requests?, hnone, hempty]
    rfl
  · rw [requests?, hpicked, hempty]
    exact (hr run score hscore).requests?_eq.trans (congrArg Except.ok (hn run score hscore))

theorem summary?_ok (hr : r.AreWords) {pick n : Nat} (hn : r.requests? pick = .ok n) :
    ∃ lines, r.summary? pick = .ok lines := by
  rw [summary?, hn]
  refine bind_ok ⟨n, rfl⟩ fun _ => bind_ok (mapM_ok ?_) fun lines => ⟨_, rfl⟩
  intro entry hmem
  exact summaryLine_ok entry.1
    (hr entry.1 entry.2 (Std.TreeMap.mem_toList_iff_getElem?_eq_some.mp hmem))

theorem comparisonLine_ok (hr : r.AreWords) (algorithm : Algorithm) :
    ∃ line, r.comparisonLine algorithm = .ok line := by
  rw [comparisonLine]
  cases hsequential : r[Run.mk algorithm .sequential]? with
  | none => exact ⟨_, rfl⟩
  | some sequential =>
    cases hconcurrent : r[Run.mk algorithm .concurrent]? with
    | none => exact ⟨_, rfl⟩
    | some concurrent =>
      rcases (hr _ _ hsequential).hitRate?_ok with ⟨before, hbefore⟩
      rcases (hr _ _ hconcurrent).hitRate?_ok with ⟨after, hafter⟩
      dsimp only
      rw [hbefore, hafter]
      exact ⟨_, rfl⟩

theorem comparison?_ok (hr : r.AreWords) : ∃ lines, r.comparison? = .ok lines := by
  rcases mapM_ok fun algorithm _ => comparisonLine_ok hr algorithm with ⟨lines, hlines⟩
  rw [comparison?, hlines]
  exact ⟨_, rfl⟩

theorem outcome?_eq {pick n : Nat} (hn : r.requests? pick = .ok n) (nanos objects : Nat) :
    r.outcome? pick nanos objects = .ok { results := r, requests := n, objects, nanos } := by
  rw [outcome?, hn]
  rfl

end Results

end CacheLab
