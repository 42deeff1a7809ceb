import CacheLab.RequestLog
import CacheLab.Proofs.Csv
import CacheLab.Proofs.RequestLog.Row
import CacheLab.Proofs.Traffic.Objects

/-!
# CacheLab.Proofs.RequestLog — a written log reads back

`RequestLog.write` quotes what has to be quoted and nothing else, while the reader also skips
comments and takes white space off fields. No row of a log begins a comment, for each begins with a
digit (`readable_write`); so the records of a log are its header and its rows (`records_write`),
and each row is read as its request. `parse_write` is the result for every list of requests,
`parse_write_generate` that for synthetic traffic.
-/

namespace CacheLab

namespace RequestLog

open Text.Utf8 (encode)

/-! ## The records of a log -/

/-- A row begins with a digit. -/
theorem readable_write (r : Request) : Csv.Readable ((Row.write r).map (·.toList)) := by
  refine ⟨(toString r.timestamp).toList, _, rfl, fun hhash => ?_⟩
  rw [Row.toList_toString] at hhash
  exact nomatch Numeral.isDigit_of_mem_toDigits '#' (List.mem_of_head? hhash)

/-- The records of a log are its header and a row for each request, in this order. -/
theorem records_write {requests : List Request} (hne : requests ≠ []) :
    (Csv.records (write requests).toUTF8.data.toList).map (·.fields) =
      (Column.all.map (·.name) :: requests.map Row.write).map
        (·.map fun field => encode field.toList) := by
  refine Csv.records_table (mt List.map_eq_nil_iff.mp hne) (by decide) ?_
  rw [List.forall_mem_cons, List.forall_mem_map]
  exact ⟨⟨_, _, rfl, by decide⟩, fun r _ => readable_write r⟩

/-! ## The entries of a log -/

/-- Rows with the fields of some requests are read as these requests. -/
theorem map_read_write {rows : List Csv.Record} {requests : List Request}
    (hrows : rows.map (·.fields) =
      (requests.map Row.write).map (·.map fun field => encode field.toList))
    (hwords : ∀ r ∈ requests, r.InWords) (htrim : ∀ r ∈ requests, Text.trim r.key = r.key) :
    (rows.map fun row =>
      (Row.read (some (Column.all.map (·.name))) row).mapError (LogError.row row.position)) =
        requests.map .ok := by
  induction requests generalizing rows with
  | nil =>
    rw [List.map_eq_nil_iff.mp hrows]
    rfl
  | cons r requests ih =>
    rw [List.forall_mem_cons] at hwords htrim
    rcases List.map_eq_cons_iff.mp hrows with ⟨row, rows, rfl, hrow, hrest⟩
    rw [List.map_cons, List.map_cons, ih hrest hwords.2 htrim.2,
      Row.read_write hwords.1 htrim.1 hrow]
    rfl

theorem entries_write {requests : List Request} (hwords : ∀ r ∈ requests, r.InWords)
    (htrim : ∀ r ∈ requests, Text.trim r.key = r.key) :
    entries (write requests).toUTF8.data.toList = requests.map .ok := by
  by_cases hne : requests = []
  · subst hne
    rfl
  · rcases List.map_eq_cons_iff.mp (records_write hne) with
      ⟨header, rows, hrecords, hheader, hrows⟩
    have hnames : Row.texts header = .ok (Column.all.map (·.name)) :=
      Row.texts_encode hheader (by decide)
    rw [entries, hrecords]
    dsimp only
    rw [hnames]
    exact map_read_write hrows hwords htrim

theorem parse_eq {requests : List Request} (hwords : ∀ r ∈ requests, r.InWords)
    (htrim : ∀ r ∈ requests, Text.trim r.key = r.key) :
    parse (.ok (write requests).toUTF8) = .ok requests := by
  have hall : requests.mapM (fun r => (Except.ok r : Entry)) = .ok (requests.map id) :=
    List.mapM_pure
  rw [parse, opened, entries_write hwords htrim, List.mapM_map]
  rwa [List.map_id] at hall

end RequestLog

/-! ## Keys of synthetic traffic -/

theorem ObjectClass.trim_key (c : ObjectClass) (n : Nat) : Text.trim (c.key n) = c.key n := by
  have hname : ∃ name : String, name.toList.any Text.isBlank = false ∧
      c.key n = name ++ toString n := by
    cases c with
    | popular => exact ⟨"popular_obj_", by decide, rfl⟩
    | regular => exact ⟨"regular_obj_", by decide, rfl⟩
  rcases hname with ⟨name, hblank, hkey⟩
  have hchars : ∀ a ∈ (c.key n).toList, Text.isBlank a = false := by
    rw [hkey, String.toList_append, Row.toList_toString, List.forall_mem_append]
    refine ⟨fun a ha => ?_, fun a ha => ?_⟩
    · exact eq_false_of_ne_true (List.any_eq_false.mp hblank a ha)
    · exact Text.isBlank_of_isDigit (Numeral.isDigit_of_mem_toDigits a ha)
  rw [Text.trim, Text.trimChars_of_not_blank hchars, String.ofList_toList]

/-- The keys that are drawn for synthetic traffic have no white space at their ends. -/
theorem Hour.trim_key {p : Profile} {hour : Nat} {source : Random.Source} {k : String}
    (hk : (Hour.key p hour source).1 = .ok k) : Text.trim k = k := by
  rw [Hour.key_eq] at hk
  dsimp only at hk
  cases hobject : ((Hour.pick p source).1.1.window p hour).object? (Hour.pick p source).1.2 with
  | error e =>
    rw [hobject] at hk
    cases hk
  | ok n =>
    rw [hobject] at hk
    cases hk
    exact ObjectClass.trim_key _ n

namespace RequestLog

/-- Every log reads back as the requests that were written, in order: whatever their keys hold, as
long as it is no white space at their ends, and whatever words their numbers are. A log without
requests is empty, every other one has a header and a row for each request. -/
theorem parse_write (requests : List Request) (hwords : ∀ r ∈ requests, r.InWords)
    (htrim : ∀ r ∈ requests, Text.trim r.key = r.key) :
    (requests = [] → write requests = "") ∧
      (requests ≠ [] → (Csv.records (write requests).toUTF8.data.toList).map (·.fields) =
        (["timestamp", "key", "size", "ttl"] :: requests.map fun r =>
          [toString r.timestamp, r.key, toString r.size, toString r.ttl]).map
            (·.map fun field => Text.Utf8.encode field.toList)) ∧
      parse (.ok (write requests).toUTF8) = .ok requests ∧
      ∀ (p : Profile) (hour : Nat) (source : Random.Source) (k : String),
        (Hour.key p hour source).1 = .ok k → Text.trim k = k := by
  refine ⟨?_, records_write, parse_eq hwords htrim, fun _ _ _ _ => Hour.trim_key⟩
  rintro rfl
  rfl

/-- Keys that need quotes, keys that would be a comment or a number elsewhere, and the greatest
numbers. -/
theorem parse_write_hard_keys :
    let requests : List Request := [
      { timestamp := 18446744073709551615, key := "a,\"b\"\r\nc", size := 0, ttl := 0 },
      { timestamp := 0, key := "", size := 18446744073709551615, ttl := 1 },
      { timestamp := 1, key := "# \"", size := 2, ttl := 18446744073709551615 },
      { timestamp := 7, key := "\uFEFFé\u2009x", size := 3, ttl := 4 }]
    (∀ r ∈ requests, r.InWords) ∧ (∀ r ∈ requests, Text.trim r.key = r.key) ∧
      parse (.ok (write requests).toUTF8) = .ok requests := by
  intro requests
  have hwords : ∀ r ∈ requests, r.InWords := by
    simp only [requests, List.forall_mem_cons]
    exact ⟨⟨by decide, by decide, by decide⟩, ⟨by decide, by decide, by decide⟩,
      ⟨by decide, by decide, by decide⟩, ⟨by decide, by decide, by decide⟩, fun _ h => nomatch h⟩
  have htrim : ∀ r ∈ requests, Text.trim r.key = r.key := by decide
  exact ⟨hwords, htrim, (parse_write requests hwords htrim).2.2.1⟩

-- white space at the ends of a key does not come back
example : parse (.ok (write [⟨0, "\ta b ", 1, 2⟩]).toUTF8) = .ok [⟨0, "a b", 1, 2⟩] := by
  decide +kernel

/-- The requests of an hour of synthetic traffic are read back from the log of the hour. -/
theorem parse_write_generate {p : Profile} (hfits : p.Fits) (hobjects : 0 < p.objects)
    (hour start : Nat) (source : Random.Source) :
    parse (.ok (write (Hour.generate p hour start source).requests.toList).toUTF8) =
      .ok (Hour.generate p hour start source).requests.toList := by
  have hdrawn := (Hour.extend_cases hour hfits hobjects start (h := {}) (fun r hr => nomatch hr)
    rfl 0 p.hourRequests source).1
  refine parse_eq (fun r hr => ?_) (fun r hr => ?_)
  · have hr' := hdrawn r (Array.mem_toList_iff.mp hr)
    exact ⟨hr'.timestamp_lt, Nat.lt_of_le_of_lt hr'.size_mem.2 hfits.size_lt,
      Nat.lt_of_le_of_lt hr'.ttl_mem.2 hfits.ttl_lt⟩
  · rcases (hdrawn r (Array.mem_toList_iff.mp hr)).key_eq with ⟨c, n, -, hkey⟩
    rw [hkey]
    exact c.trim_key n

end RequestLog

end CacheLab
