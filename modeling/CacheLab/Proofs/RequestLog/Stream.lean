import Mathlib.Data.List.Basic
import Mathlib.Data.List.Sort
import Mathlib.Data.List.TakeWhile
import Mathlib.Data.String.Basic
import CacheLab.RequestLog.Stream
import CacheLab.Proofs.Fallible

/-!
# CacheLab.Proofs.RequestLog.Stream — a stream is its logs, read one by one

`LogStream.pull` asks a stream for its next entry again and again. Because `LogStream.toList` is
what is still to come, the first answers are its members, and all answers behind them are `none`
(`LogStream.pull_eq`); so logs without entries are passed over, however many there are.

Reading the logs of a stream one by one with `RequestLog.parse` gives all requests if no log is
rejected (`LogStream.pull_of_parsed`). Otherwise the first log that is rejected has rows in front
of the bad one, and the stream answers these and the error (`LogStream.pull_of_rejected`). The logs
of a directory are the regular files with a certain ending, in order (`RequestLog.isLog_iff`,
`RequestLog.pairwise_select`); `LogStream.pull_directory` is the whole.
-/

namespace CacheLab

/-! ## Logs among files -/

namespace RequestLog

/-- The ending of a name stands behind its last dot, and something stands in front of this dot. -/
theorem ending?_eq_some_iff {name ending : String} :
    ending? name = some ending ↔
      ∃ stem, stem ≠ "" ∧ '.' ∉ ending.toList ∧ name = stem ++ "." ++ ending := by
  constructor
  · intro h
    have hsplit := List.takeWhile_append_dropWhile (p := (· ≠ '.')) (l := name.toList.reverse)
    have hnot : '.' ∉ name.toList.reverse.takeWhile (· ≠ '.') := fun hmem => by
      simpa using List.mem_takeWhile_imp hmem
    rw [ending?] at h
    split at h
    case h_2 => cases h
    case h_1 c rest hdrop =>
      cases h
      generalize name.toList.reverse.takeWhile (· ≠ '.') = backwards at *
      have hname : name.toList = (c :: rest).reverse ++ '.' :: backwards.reverse := by
        rw [← List.reverse_reverse name.toList, ← hsplit, hdrop]
        simp
      refine ⟨String.ofList (c :: rest).reverse, by simp, by simpa using hnot, ?_⟩
      rw [← String.toList_inj, hname]
      simp
  · rintro ⟨stem, hstem, hdot, rfl⟩
    have hbackwards : (stem ++ "." ++ ending).toList.reverse =
        ending.toList.reverse ++ '.' :: stem.toList.reverse := by simp
    have hbefore : ∀ c ∈ ending.toList.reverse, decide (c ≠ '.') = true := by
      intro c hc
      exact decide_eq_true fun hc' => hdot (hc' ▸ List.mem_reverse.mp hc)
    have hdrop : (ending.toList.reverse ++ '.' :: stem.toList.reverse).dropWhile (· ≠ '.') =
        '.' :: stem.toList.reverse := by
      rw [List.dropWhile_append_of_pos hbefore, List.dropWhile_cons_of_neg (by decide)]
    have htake : (ending.toList.reverse ++ '.' :: stem.toList.reverse).takeWhile (· ≠ '.') =
        ending.toList.reverse := by
      rw [List.takeWhile_append_of_pos hbefore, List.takeWhile_cons_of_neg (by decide),
        List.append_nil]
    rw [ending?, hbackwards, hdrop, htake]
    cases hrest : stem.toList.reverse with
    | nil => exact absurd (String.toList_eq_nil_iff.mp (List.reverse_eq_nil_iff.mp hrest)) hstem
    | cons c rest =>
      show some (String.ofList ending.toList.reverse.reverse) = some ending
      rw [List.reverse_reverse, String.ofList_toList]

/-- A log has one of three endings, and something in front of it. -/
theorem isLog_iff {name : String} :
    isLog name = true ↔ ∃ stem ending, stem ≠ "" ∧ ending ∈ ["csv", "log", "txt"] ∧
      name = stem ++ "." ++ ending := by
  rw [isLog, Option.any_eq_true]
  constructor
  · rintro ⟨ending, hending, hmem⟩
    rcases ending?_eq_some_iff.mp hending with ⟨stem, hstem, _, hname⟩
    exact ⟨stem, ending, hstem, List.contains_iff_mem.mp hmem, hname⟩
  · rintro ⟨stem, ending, hstem, hmem, hname⟩
    have hdot : ∀ ending ∈ ["csv", "log", "txt"], '.' ∉ ending.toList := by decide
    exact ⟨ending, ending?_eq_some_iff.mpr ⟨stem, hstem, hdot ending hmem, hname⟩,
      List.contains_iff_mem.mpr hmem⟩

/-- What is in front of the names does not matter for their order. -/
theorem join_le_join (directory : String) {a b : String} (h : a ≤ b) :
    join directory a ≤ join directory b := by
  have happend : ∀ front : String, front ++ a ≤ front ++ b := by
    intro front
    rcases h.lt_or_eq with hlt | rfl
    · apply le_of_lt
      rw [String.lt_iff, String.toList_append, String.toList_append]
      exact List.append_left_lt (String.lt_iff.mp hlt)
    · exact le_refl _
  rw [join, join]
  split_ifs
  · exact happend directory
  · exact happend (directory ++ "/")

/-- Logs are selected in the order of their paths. -/
theorem pairwise_select (directory : String) (names : List String) :
    ((select names).map (join directory)).Pairwise (· ≤ ·) :=
  List.pairwise_map.mpr ((List.pairwise_mergeSort' (· ≤ ·) _).imp (join_le_join directory))

theorem select_perm (names : List String) : (select names).Perm (names.filter isLog) :=
  List.mergeSort_perm _ _

/-! ## Reading one log -/

/-- A log that is not rejected has requests and nothing else. -/
theorem opened_of_parse_ok {log : Except OsError ByteArray} {requests : List Request}
    (h : parse log = .ok requests) : opened log = requests.map .ok := by
  rw [← mapM_eq_ok_iff.mp h, List.map_id]

/-- A log that is rejected has rows, then what is wrong. -/
theorem opened_of_parse_error {log : Except OsError ByteArray} {e : LogError}
    (h : parse log = .error e) :
    ∃ (rows : List Request) (behind : List Entry),
      opened log = rows.map .ok ++ .error e :: behind := by
  rcases mapM_eq_error_iff.mp h with ⟨before, entry, behind, hentries, hbefore, rfl⟩
  rcases mapM_ok hbefore with ⟨rows, hrows⟩
  have hrows := mapM_eq_ok_iff.mp hrows
  rw [List.map_id] at hrows
  exact ⟨rows, behind, hrows ▸ hentries⟩

end RequestLog

/-! ## What a stream answers -/

namespace LogStream

/-- Asks for the next entry a number of times. -/
def pull : LogStream → Nat → List (Option Entry)
  | _, 0 => []
  | s, n + 1 => s.next.1 :: s.next.2.pull n

/-- Once no log has an entry, nothing is to come. -/
theorem toList_of_advance_eq_none {pending : List (Except OsError ByteArray)}
    (h : (advance pending).1 = none) : (advance pending).2.toList = [] := by
  induction pending with
  | nil => rfl
  | cons log pending ih =>
    cases hopened : RequestLog.opened log with
    | nil =>
      have hstep : advance (log :: pending) = advance pending := by simp [advance, hopened]
      rw [hstep] at h ⊢
      exact ih h
    | cons entry entries => cases log <;> simp [advance, hopened] at h

theorem toList_of_next_eq_none {s : LogStream} (h : s.next.1 = none) : s.next.2.toList = [] := by
  rcases s with ⟨pending, _ | _ | ⟨entry, entries⟩⟩
  · exact toList_of_advance_eq_none h
  · exact toList_of_advance_eq_none h
  · cases h

/-- The answers are the entries to come, and nothing for good behind them. -/
theorem pull_eq (s : LogStream) (n : Nat) :
    s.pull n = (s.toList.map some ++ List.replicate n none).take n := by
  induction n generalizing s with
  | zero => rw [List.take_zero, pull]
  | succ n ih =>
    rw [pull, ih, toList_next s]
    cases hnext : s.next.1 with
    | none =>
      -- without an answer the rest is empty, so only `none` can follow
      rw [toList_of_next_eq_none hnext]
      simp [List.replicate_succ]
    | some entry =>
      have hlast : s.next.2.toList.map some ++ List.replicate (n + 1) none =
          (s.next.2.toList.map some ++ List.replicate n none) ++ [none] := by
        rw [List.replicate_succ', List.append_assoc]
      have hlong : n ≤ (s.next.2.toList.map some ++ List.replicate n none).length := by simp
      show some entry :: _ =
        some entry :: (s.next.2.toList.map some ++ List.replicate (n + 1) none).take n
      rw [hlast, List.take_append_of_le_length hlong]

/-! ## Logs one by one -/

variable {logs front : List (Except OsError ByteArray)} {requests : List (List Request)}

/-- What is to come of logs that are not rejected. -/
theorem flatMap_opened (h : logs.map RequestLog.parse = requests.map .ok) :
    logs.flatMap RequestLog.opened = requests.flatten.map .ok := by
  induction logs generalizing requests with
  | nil =>
    rw [List.map_eq_nil_iff.mp h.symm]
    rfl
  | cons log logs ih =>
    rcases List.map_eq_cons_iff.mp h.symm with ⟨first, rest, rfl, hfirst, hrest⟩
    rw [List.flatMap_cons, RequestLog.opened_of_parse_ok hfirst.symm, ih hrest.symm,
      List.flatten_cons, List.map_append]

/-- If no log is rejected, the stream answers the requests of all of them, and then nothing. -/
theorem pull_of_parsed (h : logs.map RequestLog.parse = requests.map .ok) (n : Nat) :
    ({ pending := logs } : LogStream).pull n =
      (requests.flatten.map (fun r => some (Except.ok r)) ++ List.replicate n none).take n := by
  have hcome : ({ pending := logs } : LogStream).toList = requests.flatten.map .ok := by
    rw [← flatMap_opened h]
    rfl
  rw [pull_eq, hcome, List.map_map]
  rfl

/-- Otherwise it answers the requests of the logs in front of the first that is rejected, the rows
of this one in front of the bad one, and the error. -/
theorem pull_of_rejected {log : Except OsError ByteArray} {e : LogError}
    (behind : List (Except OsError ByteArray))
    (hfront : front.map RequestLog.parse = requests.map .ok)
    (hlog : RequestLog.parse log = .error e) :
    ∃ (rows : List Request) (rest : List Entry),
      RequestLog.opened log = rows.map .ok ++ .error e :: rest ∧
      ({ pending := front ++ log :: behind } : LogStream).pull
          ((requests.flatten ++ rows).length + 1) =
        (requests.flatten ++ rows).map (fun r => some (Except.ok r)) ++ [some (Except.error e)] := by
  rcases RequestLog.opened_of_parse_error hlog with ⟨rows, rest, hopened⟩
  refine ⟨rows, rest, hopened, ?_⟩
  have hcome : ({ pending := front ++ log :: behind } : LogStream).toList =
      ((requests.flatten ++ rows).map .ok ++ [.error e]) ++
        (rest ++ behind.flatMap RequestLog.opened) := by
    show (front ++ log :: behind).flatMap RequestLog.opened = _
    rw [List.flatMap_append, List.flatMap_cons, flatMap_opened hfront, hopened]
    simp
  have hlength : (((requests.flatten ++ rows).map .ok ++ [.error e] : List Entry).map some).length =
      (requests.flatten ++ rows).length + 1 := by
    rw [List.length_map, List.length_append, List.length_map]
    rfl
  rw [pull_eq, hcome, List.map_append, List.append_assoc, List.take_left' hlength,
    List.map_append, List.map_map]
  rfl

end LogStream

/-! ## The logs of a directory -/

theorem FileTree.files_eq {t : FileTree} {directory : String} {entries : List (String × FileTree)}
    (h : t.get directory = .ok (.directory entries)) :
    t.files directory = .ok ((entries.filter (·.2.isFile)).map (·.1)) := by
  rw [files, h]
  rfl

theorem FileTree.mem_files_iff {entries : List (String × FileTree)} {name : String} :
    name ∈ (entries.filter (·.2.isFile)).map (·.1) ↔ ∃ content, (name, .file content) ∈ entries := by
  rw [List.mem_map]
  constructor
  · rintro ⟨⟨name, t⟩, hmem, rfl⟩
    rcases List.mem_filter.mp hmem with ⟨hmem, hfile⟩
    cases t with
    | file content => exact ⟨content, hmem⟩
    | directory => cases hfile
  · rintro ⟨content, hmem⟩
    exact ⟨(name, .file content), List.mem_filter.mpr ⟨hmem, rfl⟩, rfl⟩

/-- The logs of a directory are its regular files with one of three endings, each once, in the
order of their paths. A stream of them answers what reading them one by one gives. If none is
rejected, these are all their requests, and nothing for good behind them. Otherwise these are the
requests of the logs in front of the first that is rejected, the rows of this one in front of the
bad one, and its error. -/
theorem LogStream.pull_directory {t : FileTree} {directory : String}
    {entries : List (String × FileTree)} (hdirectory : t.get directory = .ok (.directory entries)) :
    ∃ logs : List String, (t.files directory).map RequestLog.select = .ok logs ∧
      (∀ name, name ∈ logs ↔ (∃ content, (name, .file content) ∈ entries) ∧
        ∃ stem ending, stem ≠ "" ∧ ending ∈ ["csv", "log", "txt"] ∧
          name = stem ++ "." ++ ending) ∧
      ((entries.map (·.1)).Nodup → logs.Nodup) ∧
      (logs.map (RequestLog.join directory)).Pairwise (· ≤ ·) ∧
      let file name := t.read (RequestLog.join directory name)
      ((∃ requests : List (List Request),
          logs.map (fun name => RequestLog.parse (file name)) = requests.map .ok ∧
          ∀ n, ({ pending := logs.map file } : LogStream).pull n =
            (requests.flatten.map (fun r => some (Except.ok r)) ++ List.replicate n none).take n) ∨
        ∃ (front : List String) (name : String) (behind : List String)
          (requests : List (List Request)) (rows : List Request) (e : LogError) (rest : List Entry),
          logs = front ++ name :: behind ∧
          front.map (fun name => RequestLog.parse (file name)) = requests.map .ok ∧
          RequestLog.parse (file name) = .error e ∧
          RequestLog.opened (file name) = rows.map .ok ++ .error e :: rest ∧
          ({ pending := logs.map file } : LogStream).pull ((requests.flatten ++ rows).length + 1) =
            (requests.flatten ++ rows).map (fun r => some (Except.ok r)) ++
              [some (Except.error e)]) := by
  have hperm := RequestLog.select_perm ((entries.filter (·.2.isFile)).map (·.1))
  refine ⟨RequestLog.select ((entries.filter (·.2.isFile)).map (·.1)), ?_, ?_, ?_,
    RequestLog.pairwise_select directory _, ?_⟩
  · rw [FileTree.files_eq hdirectory]
    rfl
  · intro name
    rw [hperm.mem_iff, List.mem_filter, FileTree.mem_files_iff, RequestLog.isLog_iff]
  · intro hnodup
    refine hperm.nodup_iff.mpr (List.Nodup.filter _ ?_)
    exact hnodup.sublist (List.filter_sublist.map _)
  · intro file
    generalize RequestLog.select ((entries.filter (·.2.isFile)).map (·.1)) = logs
    -- either all logs can be parsed or there is a first that cannot
    cases hall : logs.mapM fun name => RequestLog.parse (file name) with
    | ok requests =>
      have hparsed := mapM_eq_ok_iff.mp hall
      refine Or.inl ⟨requests, hparsed, fun n => pull_of_parsed ?_ n⟩
      rw [List.map_map]
      exact hparsed
    | error e =>
      rcases mapM_eq_error_iff.mp hall with ⟨front, name, behind, rfl, hfront, hname⟩
      rcases mapM_ok hfront with ⟨requests, hrequests⟩
      have hparsed := mapM_eq_ok_iff.mp hrequests
      have hopened : (front.map file).map RequestLog.parse = requests.map .ok := by
        rw [List.map_map]
        exact hparsed
      rcases pull_of_rejected (behind.map file) hopened hname with
        ⟨rows, rest, hrows, hpull⟩
      refine Or.inr ⟨front, name, behind, requests, rows, e, rest, rfl, hparsed, hname, hrows, ?_⟩
      rw [List.map_append, List.map_cons]
      exact hpull

/-- A log without requests, one with a request, and a directory with the name of a log. -/
theorem LogStream.pull_directory_two_logs :
    let entries : List (String × FileTree) := [
      ("b.csv", .file "timestamp,key,size,ttl\n0,a,10,0\n".toUTF8), ("a.txt", .file ByteArray.empty),
      ("old.csv", .empty)]
    let t : FileTree := .directory [("d", .directory entries)]
    t.get "d" = .ok (.directory entries) ∧
      ∃ logs : List String, (t.files "d").map RequestLog.select = .ok logs ∧
        "b.csv" ∈ logs ∧ "old.csv" ∉ logs := by
  intro entries t
  have hsplit : "d".splitOn "/" = ["d"] := by
    rw [String.splitOn, if_neg (by decide), String.splitOnAux, if_neg (by decide +kernel),
      if_neg (by decide +kernel), String.splitOnAux, if_pos (by decide +kernel)]
    decide +kernel
  have hnames : FileTree.names "d" = .ok ["d"] := by
    rw [FileTree.names, if_neg (by decide), if_neg (by decide +kernel), if_neg (by decide), hsplit]
    rfl
  have hslash : "d".endsWith "/" = false := by decide +kernel
  have hdirectory : t.get "d" = .ok (.directory entries) := by
    rw [FileTree.get, hnames]
    show t.find (if "d".endsWith "/" then ["d"] ++ ["."] else ["d"]) = _
    rw [hslash]
    rfl
  rcases pull_directory hdirectory with ⟨logs, hlogs, hmem, _⟩
  refine ⟨hdirectory, logs, hlogs, (hmem _).mpr ⟨⟨_, List.mem_cons_self⟩, ?_⟩, fun hold => ?_⟩
  · exact ⟨"b", "csv", by decide, by decide, by decide⟩
  · rcases (hmem _).mp hold with ⟨⟨content, hcontent⟩, _⟩
    simp [entries, FileTree.empty] at hcontent

end CacheLab
