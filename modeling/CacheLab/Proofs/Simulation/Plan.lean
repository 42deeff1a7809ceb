import Mathlib.Data.List.Basic
import CacheLab.Proofs.Simulation.Coverage

/-!
# CacheLab.Proofs.Simulation.Plan — the planned runs are those that were asked for

Names are read first and repetitions are removed afterwards, so that spellings of one algorithm
count as one. What remains are the `FirstMentions` of the algorithms: each once, in the order in
which they come first.

`Run.plan_pairwise` says that the runs are planned in one order (`Run.Before`), by algorithm and
then by mode; as no run is before itself, none is planned twice. `Run.plan_select` puts this
together with `Run.mem_plan` and with what is read from the names.
-/

namespace CacheLab

/-! ## First mentions -/

section FirstMentions

variable {α : Type} [DecidableEq α] {mentioned listed : List α}

/-- The members of a list, each of them once, in the order in which they come first in it. -/
structure FirstMentions (mentioned listed : List α) : Prop where
  nodup : listed.Nodup
  mem_iff : ∀ a, a ∈ listed ↔ a ∈ mentioned
  ordered : listed.Pairwise fun a b => mentioned.idxOf a < mentioned.idxOf b

namespace FirstMentions

/-- Another mention changes nothing. -/
theorem again (h : FirstMentions mentioned listed) {a : α} (ha : a ∈ mentioned) :
    FirstMentions (mentioned ++ [a]) listed where
  nodup := h.nodup
  mem_iff b := by
    rw [h.mem_iff, List.mem_append, List.mem_singleton]
    exact ⟨Or.inl, fun hb => hb.elim id (· ▸ ha)⟩
  ordered := h.ordered.imp_of_mem fun {b c} hb hc hbc => by
    rw [List.idxOf_append_of_mem ((h.mem_iff b).mp hb),
      List.idxOf_append_of_mem ((h.mem_iff c).mp hc)]
    exact hbc

/-- A first mention comes behind all others. -/
theorem snoc (h : FirstMentions mentioned listed) {a : α} (ha : a ∉ mentioned) :
    FirstMentions (mentioned ++ [a]) (listed ++ [a]) where
  nodup := by
    rw [← List.concat_eq_append]
    exact h.nodup.concat fun hmem => ha ((h.mem_iff a).mp hmem)
  mem_iff b := by
    rw [List.mem_append, h.mem_iff, List.mem_append]
  ordered := by
    refine List.pairwise_append.mpr ⟨?earlier, List.pairwise_singleton _ _, ?last⟩
    case earlier =>
      refine h.ordered.imp_of_mem fun {b c} hb hc hbc => ?_
      rw [List.idxOf_append_of_mem ((h.mem_iff b).mp hb),
        List.idxOf_append_of_mem ((h.mem_iff c).mp hc)]
      exact hbc
    case last =>
      intro b hb c hc
      have hb := (h.mem_iff b).mp hb
      rw [List.mem_singleton.mp hc, List.idxOf_append_of_mem hb, List.idxOf_append_of_notMem ha]
      exact Nat.lt_add_right _ (List.idxOf_lt_length_iff.mpr hb)

/-- They are what remains without repetitions. -/
theorem eraseDups (mentioned : List α) : FirstMentions mentioned mentioned.eraseDups := by
  -- the last mention is a repetition, or it is new and comes last
  induction mentioned using List.reverseRecOn with
  | nil => exact ⟨List.nodup_nil, fun _ => Iff.rfl, List.Pairwise.nil⟩
  | append_singleton mentioned a ih =>
    rw [List.eraseDups_append]
    by_cases ha : a ∈ mentioned
    · have hnone : [a].removeAll mentioned = [] := by simp [List.removeAll, ha]
      rw [hnone, List.eraseDups_nil, List.append_nil]
      exact ih.again ha
    · have hone : [a].removeAll mentioned = [a] := by simp [List.removeAll, ha]
      rw [hone, List.eraseDups_cons, List.filter_nil, List.eraseDups_nil]
      exact ih.snoc ha

/-- A list without repetitions mentions its members in its own order. -/
theorem refl (h : listed.Nodup) : FirstMentions listed listed where
  nodup := h
  mem_iff _ := Iff.rfl
  ordered := List.pairwise_iff_getElem.mpr fun i j hi hj hij => by
    rw [h.idxOf_getElem i hi, h.idxOf_getElem j hj]
    exact hij

end FirstMentions

end FirstMentions

/-! ## What names select -/

namespace Algorithm

variable {names : List String} {mentioned : List Algorithm} {e : ChoiceError}

/-- Names are read first; then repetitions are removed, and no names stand for all algorithms. -/
theorem select_eq (names : List String) : select names =
    (names.mapM parse).map fun mentioned =>
      if mentioned = [] then all else mentioned.eraseDups := by
  rw [select]
  cases names.mapM parse with
  | error e => rfl
  | ok mentioned =>
    cases mentioned with
    | nil => rfl
    | cons first rest =>
      simp [List.eraseDups_cons, bind, Except.bind, pure, Except.pure, Except.map]

/-- The first name that is no algorithm is reported. -/
theorem select_eq_error_iff :
    select names = .error e ↔ ∃ before name behind, names = before ++ name :: behind ∧
      (∀ other ∈ before, ∃ a, parse other = .ok a) ∧ parse name = .error e := by
  rw [← mapM_eq_error_iff, select_eq]
  cases names.mapM parse with
  | error e' => exact Iff.rfl
  | ok mentioned => exact ⟨nofun, nofun⟩

/-- Nothing is selected only if some name is no algorithm. -/
theorem select_fails_iff :
    (∃ e, select names = .error e) ↔ ∃ name ∈ names, ∃ e, parse name = .error e := by
  constructor
  · rintro ⟨e, herror⟩
    rcases select_eq_error_iff.mp herror with ⟨before, name, behind, rfl, _, hname⟩
    exact ⟨name, List.mem_append_right _ List.mem_cons_self, e, hname⟩
  · rintro ⟨name, hmem, e, hname⟩
    rw [select_eq]
    cases hread : names.mapM parse with
    | error e' => exact ⟨e', rfl⟩
    | ok mentioned =>
      rcases ok_of_mapM_eq_ok hread hmem with ⟨a, ha⟩
      cases ha.symm.trans hname

/-- Otherwise the names select the algorithms that they mention, and no names select all. -/
theorem select_eq_ok (hnames : names.map parse = mentioned.map .ok) :
    ∃ selected, select names = .ok selected ∧
      FirstMentions (if names = [] then all else mentioned) selected := by
  have hempty : names = [] ↔ mentioned = [] := by
    rw [← List.map_eq_nil_iff (f := parse), hnames, List.map_eq_nil_iff]
  refine ⟨if mentioned = [] then all else mentioned.eraseDups, ?_, ?_⟩
  · rw [select_eq, mapM_eq_ok_iff.mpr hnames]
    rfl
  · simp only [hempty]
    by_cases hnone : mentioned = []
    · rw [if_pos hnone, if_pos hnone]
      exact FirstMentions.refl (by decide)
    · rw [if_neg hnone, if_neg hnone]
      exact FirstMentions.eraseDups mentioned

end Algorithm

/-- A name never selects a mode twice. -/
theorem Mode.nodup_of_parse {text : String} {modes : List Mode} (h : parse text = .ok modes) :
    modes.Nodup := by
  rw [parse] at h
  split at h <;> cases h <;> decide

/-! ## The plan -/

namespace Run

/-- By algorithm, and then by mode, each in the order of a list. -/
def Before (algorithms : List Algorithm) (modes : List Mode) (r r' : Run) : Prop :=
  algorithms.idxOf r.algorithm < algorithms.idxOf r'.algorithm ∨
    r.algorithm = r'.algorithm ∧ modes.idxOf r.mode < modes.idxOf r'.mode

variable {algorithms : List Algorithm} {modes : List Mode}

theorem Before.irrefl (r : Run) : ¬ r.Before algorithms modes r := by
  rintro (h | ⟨_, h⟩) <;> exact Nat.lt_irrefl _ h

/-- The runs are planned in this order. -/
theorem plan_pairwise (halgorithms : algorithms.Nodup) (hmodes : modes.Nodup) :
    (plan algorithms modes).Pairwise (Before algorithms modes) := by
  have hof : ∀ {algorithm run}, run ∈ (modes.map (Run.mk algorithm)).filter isPossible →
      run.algorithm = algorithm := by
    intro algorithm run hrun
    rcases List.mem_map.mp (List.mem_filter.mp hrun).1 with ⟨mode, _, rfl⟩
    rfl
  refine List.pairwise_flatMap.mpr ⟨?_, ?_⟩
  · intro algorithm _
    refine List.Pairwise.filter _ (List.pairwise_map.mpr ?_)
    exact (FirstMentions.refl hmodes).ordered.imp fun h => Or.inr ⟨rfl, h⟩
  · refine (FirstMentions.refl halgorithms).ordered.imp fun {a b} h r hr r' hr' => Or.inl ?_
    rw [hof hr, hof hr']
    exact h

/-- So none is planned twice. -/
theorem plan_nodup (halgorithms : algorithms.Nodup) (hmodes : modes.Nodup) :
    (plan algorithms modes).Nodup :=
  (plan_pairwise halgorithms hmodes).imp fun {r r'} h => by
    rintro rfl
    exact Before.irrefl r h

/-- Names and a mode ask for runs. If some name is no algorithm, the answer is the error of the
first such name. Otherwise each algorithm that is mentioned is selected once, in the order of the
first mentions, and all of them without a name; the plan then holds each pair of a selected
algorithm and a selected mode once, in order, apart from the concurrent form of the reference. -/
theorem plan_select (names : Option (List String)) {text : String}
    (hmodes : Mode.parse text = .ok modes) :
    ((∃ e, Algorithm.select (names.getD []) = .error e) ↔
      ∃ name ∈ names.getD [], ∃ e, Algorithm.parse name = .error e) ∧
    (∀ e, Algorithm.select (names.getD []) = .error e ↔
      ∃ before name behind, names.getD [] = before ++ name :: behind ∧
        (∀ other ∈ before, ∃ a, Algorithm.parse other = .ok a) ∧
        Algorithm.parse name = .error e) ∧
    ((∀ name ∈ names.getD [], ∃ a, Algorithm.parse name = .ok a) →
      ∃ mentioned selected, (names.getD []).map Algorithm.parse = mentioned.map .ok ∧
        Algorithm.select (names.getD []) = .ok selected ∧
        FirstMentions (if names.getD [] = [] then Algorithm.all else mentioned) selected ∧
        (plan selected modes).Nodup ∧
        (plan selected modes).Pairwise (Before selected modes) ∧
        ∀ run, run ∈ plan selected modes ↔
          run.algorithm ∈ selected ∧ run.mode ∈ modes ∧
            run ≠ ⟨.referenceLru, .concurrent⟩) := by
  refine ⟨Algorithm.select_fails_iff, fun e => Algorithm.select_eq_error_iff, ?_⟩
  intro hparsed
  have hmodes := Mode.nodup_of_parse hmodes
  rcases mapM_ok hparsed with ⟨mentioned, hread⟩
  have hnames := mapM_eq_ok_iff.mp hread
  rcases Algorithm.select_eq_ok hnames with ⟨selected, hselect, hfirst⟩
  exact ⟨mentioned, selected, hnames, hselect, hfirst, plan_nodup hfirst.nodup hmodes,
    plan_pairwise hfirst.nodup hmodes, fun run => mem_plan⟩

/-- Two spellings of one algorithm and another one between them. -/
theorem plan_select_two_spellings :
    ∃ selected, Algorithm.select ["lru", "lfu", " LRU"] = .ok selected ∧
      FirstMentions [.lru, .lfu, .lru] selected ∧
      ⟨.lfu, .concurrent⟩ ∈ plan selected [.concurrent] := by
  have ⟨hmodes, hread⟩ : Mode.parse "conc" = .ok [.concurrent] ∧
      ["lru", "lfu", " LRU"].map Algorithm.parse = [.lru, .lfu, .lru].map .ok := by
    decide +kernel
  have hparsed : ∀ name ∈ ["lru", "lfu", " LRU"], ∃ a, Algorithm.parse name = .ok a := by
    intro name hname
    exact ok_of_mapM_eq_ok (mapM_eq_ok_iff.mpr hread) hname
  rcases (plan_select (some ["lru", "lfu", " LRU"]) hmodes).2.2 hparsed with
    ⟨mentioned, selected, hnames, hselect, hfirst, _, _, hmem⟩
  cases List.map_injective_iff.mpr (fun _ _ => Except.ok.inj) (hread.symm.trans hnames)
  refine ⟨selected, hselect, hfirst, (hmem _).mpr ⟨(hfirst.mem_iff _).mpr ?_, ?_, ?_⟩⟩ <;> decide

end Run

end CacheLab
