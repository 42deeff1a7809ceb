import CacheLab.Csv.Reader
import CacheLab.Csv.Writer
import CacheLab.Proofs.Text.Utf8

/-!
# CacheLab.Proofs.Csv — a table reads back

`Scan.At` says what a scan has seen: a place, the field and the fields so far, and the complete
rows. One byte takes it to the next such description (`At.step_plain`, `At.step_quoted`,
`At.step_comma`, …), and from these, by induction on what was written,

* a field leaves the scan where a comma or a line break ends it (`At.foldl_field`), whether it
  stands between quotes or not;
* a row leaves the scan in front of the next one (`At.foldl_row`).

`records_table` puts them together: the records of a table are its header and its rows. Two things
would be read in another way, and are hypotheses: a row that begins a comment, and a header that
begins with the mark of the encoding.
-/

namespace CacheLab.Csv

open Text.Utf8 (encode encode_append encode_cons mem_encodeChar_iff mem_encode_iff
  next?_encodeChar)

/-! ## Fields as bytes -/

/-- Bytes as they stand between quotes. -/
def doubled (bytes : List UInt8) : List UInt8 :=
  bytes.flatMap fun b => if b = quote then [quote, quote] else [b]

/-- The byte is no delimiter, no quote and no line break. -/
structure Ordinary (b : UInt8) : Prop where
  ne_comma : b ≠ comma
  ne_quote : b ≠ quote
  not_break : isBreak b = false

theorem doubled_cons (b : UInt8) (bytes : List UInt8) :
    doubled (b :: bytes) = (if b = quote then [quote, quote] else [b]) ++ doubled bytes :=
  List.flatMap_cons

theorem doubled_append (a b : List UInt8) : doubled (a ++ b) = doubled a ++ doubled b :=
  List.flatMap_append

theorem doubled_eq_self {bytes : List UInt8} (hquote : quote ∉ bytes) : doubled bytes = bytes := by
  induction bytes with
  | nil => rfl
  | cons b bytes ih =>
    rw [List.mem_cons, not_or] at hquote
    rw [doubled_cons, if_neg (Ne.symm hquote.1), ih hquote.2]
    rfl

/-- Doubling the quotes of some characters doubles those of their bytes. -/
theorem encode_doubleQuotes (cs : List Char) :
    encode (doubleQuotes cs) = doubled (encode cs) := by
  induction cs with
  | nil => rfl
  | cons c cs ih =>
    rw [encode_cons, doubled_append, ← ih, doubleQuotes]
    split_ifs with hc
    · subst hc
      rfl
    · have hquote : quote ∉ String.utf8EncodeChar c := by
        rw [quote, mem_encodeChar_iff (by decide)]
        exact Ne.symm hc
      rw [encode_cons, doubled_eq_self hquote]

theorem isBreak_eq_false_iff {b : UInt8} :
    isBreak b = false ↔ b ≠ newline ∧ b ≠ carriageReturn := by
  rw [isBreak, Bool.or_eq_false_iff, decide_eq_false_iff_not, decide_eq_false_iff_not]

theorem ordinary_of_not_special {cs : List Char} (hcs : cs.any isSpecial = false) :
    ∀ b ∈ encode cs, Ordinary b := by
  rw [List.any_eq_false] at hcs
  have habsent : ∀ a : Char, isSpecial a = true → a.toNat < 0x80 → a.toUInt8 ∉ encode cs :=
    fun a ha hascii hmem => hcs a ((mem_encode_iff hascii cs).mp hmem) ha
  intro b hb
  refine ⟨?_, ?_, isBreak_eq_false_iff.mpr ⟨?_, ?_⟩⟩ <;> rintro rfl
  · exact habsent ',' (by decide) (by decide) hb
  · exact habsent '"' (by decide) (by decide) hb
  · exact habsent '\n' (by decide) (by decide) hb
  · exact habsent '\r' (by decide) (by decide) hb

/-! ## One byte -/

/-- A comma or a line break at this place ends the field. -/
def Place.endsField : Place → Bool
  | .fieldStart | .plain | .quoteEnd => true
  | .between | .comment | .quoted => false

namespace Scan

/-- What a scan has seen: it stands at a place, behind some bytes of a field, some fields of a
record and some rows. -/
structure At (s : Scan) (place : Place) (field : List UInt8) (fields : List (List UInt8))
    (rows : List (List (List UInt8))) : Prop where
  place_eq : s.place = place
  field_eq : s.field.reverse = field
  fields_eq : s.fields.reverse = fields
  rows_eq : s.records.toList.map (·.fields) = rows

namespace At

variable {s : Scan} {place : Place} {field : List UInt8} {fields : List (List UInt8)}
  {rows : List (List (List UInt8))} {b : UInt8}

theorem advance (h : s.At place field fields rows) (b : UInt8) :
    (s.advance b).At place field fields rows :=
  ⟨h.place_eq, h.field_eq, h.fields_eq, h.rows_eq⟩

theorem moved (h : s.At place field fields rows) (place' : Place) :
    { s with place := place' }.At place' field fields rows :=
  ⟨rfl, h.field_eq, h.fields_eq, h.rows_eq⟩

theorem keep (h : s.At place field fields rows) (b : UInt8) (place' : Place) :
    (s.keep b place').At place' (field ++ [b]) fields rows := by
  refine ⟨rfl, ?_, h.fields_eq, h.rows_eq⟩
  show (b :: s.field).reverse = field ++ [b]
  rw [List.reverse_cons, h.field_eq]

theorem endField (h : s.At place field fields rows) :
    s.endField.At .fieldStart [] (fields ++ [field]) rows := by
  refine ⟨rfl, rfl, ?_, h.rows_eq⟩
  show (s.field.reverse :: s.fields).reverse = fields ++ [field]
  rw [List.reverse_cons, h.fields_eq, h.field_eq]

theorem endRecord (h : s.At place field fields rows) :
    s.endRecord.At .between [] [] (rows ++ [fields ++ [field]]) := by
  refine ⟨rfl, rfl, rfl, ?_⟩
  show (s.records.push ⟨s.start, (s.field.reverse :: s.fields).reverse⟩).toList.map (·.fields) =
    rows ++ [fields ++ [field]]
  rw [Array.toList_push, List.map_append, h.rows_eq, List.reverse_cons, h.fields_eq, h.field_eq]
  rfl

theorem plainByte (h : s.At place field fields rows) (hb : Ordinary b) :
    (s.plainByte b).At .plain (field ++ [b]) fields rows := by
  rw [Scan.plainByte, if_neg hb.ne_comma, if_neg (by rw [hb.not_break]; exact Bool.false_ne_true)]
  exact h.keep b .plain

/-- The reader stands where a field begins, and reads something that is neither a quote nor the
end of the field. -/
theorem step_first (h : s.At .fieldStart field fields rows) (hb : Ordinary b) :
    (s.step b).At .plain (field ++ [b]) fields rows := by
  rw [step, read, (h.advance b).place_eq]
  show (Scan.firstByte (s.advance b) b).At .plain (field ++ [b]) fields rows
  rw [Scan.firstByte, if_neg hb.ne_quote]
  exact (h.advance b).plainByte hb

theorem step_plain (h : s.At .plain field fields rows) (hb : Ordinary b) :
    (s.step b).At .plain (field ++ [b]) fields rows := by
  rw [step, read, (h.advance b).place_eq]
  exact (h.advance b).plainByte hb

theorem step_open (h : s.At .fieldStart field fields rows) :
    (s.step quote).At .quoted field fields rows := by
  rw [step, read, (h.advance quote).place_eq]
  exact (h.advance quote).moved .quoted

theorem step_quoted (h : s.At .quoted field fields rows) (hb : b ≠ quote) :
    (s.step b).At .quoted (field ++ [b]) fields rows := by
  rw [step, read, (h.advance b).place_eq]
  show (if b = quote then _ else _ : Scan).At .quoted (field ++ [b]) fields rows
  rw [if_neg hb]
  exact (h.advance b).keep b .quoted

theorem step_close (h : s.At .quoted field fields rows) :
    (s.step quote).At .quoteEnd field fields rows := by
  rw [step, read, (h.advance quote).place_eq]
  exact (h.advance quote).moved .quoteEnd

/-- The quote before was the first of two. -/
theorem step_again (h : s.At .quoteEnd field fields rows) :
    (s.step quote).At .quoted (field ++ [quote]) fields rows := by
  rw [step, read, (h.advance quote).place_eq]
  exact (h.advance quote).keep quote .quoted

theorem step_comma (h : s.At place field fields rows) (hplace : place.endsField = true) :
    (s.step comma).At .fieldStart [] (fields ++ [field]) rows := by
  rw [step, read, (h.advance comma).place_eq]
  cases place with
  | fieldStart | plain | quoteEnd => exact (h.advance comma).endField
  | between | comment | quoted => exact nomatch hplace

theorem step_newline (h : s.At place field fields rows) (hplace : place.endsField = true) :
    (s.step newline).At .between [] [] (rows ++ [fields ++ [field]]) := by
  rw [step, read, (h.advance newline).place_eq]
  cases place with
  | fieldStart | plain | quoteEnd => exact (h.advance newline).endRecord
  | between | comment | quoted => exact nomatch hplace

/-! ## A field -/

theorem foldl_plain (h : s.At .plain field fields rows) {bytes : List UInt8}
    (hbytes : ∀ b ∈ bytes, Ordinary b) :
    (bytes.foldl Scan.step s).At .plain (field ++ bytes) fields rows := by
  induction bytes generalizing s field with
  | nil => rwa [List.append_nil]
  | cons b bytes ih =>
    rw [List.forall_mem_cons] at hbytes
    have hrest := ih (h.step_plain hbytes.1) hbytes.2
    rwa [List.append_assoc] at hrest

/-- Bytes between quotes are read as they were before their quotes were doubled. -/
theorem foldl_quoted (h : s.At .quoted field fields rows) (bytes : List UInt8) :
    ((doubled bytes).foldl Scan.step s).At .quoted (field ++ bytes) fields rows := by
  induction bytes generalizing s field with
  | nil => rwa [List.append_nil]
  | cons b bytes ih =>
    have hbyte : ((if b = quote then [quote, quote] else [b]).foldl Scan.step s).At .quoted
        (field ++ [b]) fields rows := by
      split_ifs with hb
      · -- the first of two quotes seems to end the field, and the second takes that back
        subst hb
        exact h.step_close.step_again
      · exact h.step_quoted hb
    have hrest := ih hbyte
    rw [List.append_assoc] at hrest
    rwa [doubled_cons, List.foldl_append]

theorem foldl_field (h : s.At .fieldStart [] fields rows) (cs : List Char) :
    ∃ place : Place, place.endsField = true ∧
      ((encode (writeField cs)).foldl Scan.step s).At place (encode cs) fields rows := by
  rw [writeField]
  split_ifs with hspecial
  · have hwritten : encode ('"' :: doubleQuotes cs ++ ['"']) =
        quote :: (doubled (encode cs) ++ [quote]) := by
      rw [List.cons_append, encode_cons, encode_append, encode_doubleQuotes]
      rfl
    refine ⟨.quoteEnd, rfl, ?_⟩
    rw [hwritten, List.foldl_cons, List.foldl_append]
    exact (h.step_open.foldl_quoted (encode cs)).step_close
  · have hbytes := ordinary_of_not_special (eq_false_of_ne_true hspecial)
    cases hcs : encode cs with
    | nil =>
      -- nothing is written, and the field ends where it began
      exact ⟨.fieldStart, rfl, h⟩
    | cons b bytes =>
      rw [hcs, List.forall_mem_cons] at hbytes
      exact ⟨.plain, rfl, (h.step_first hbytes.1).foldl_plain hbytes.2⟩

/-! ## A row -/

theorem foldl_fields (h : s.At .fieldStart [] fields rows) (first : List Char)
    (rest : List (List Char)) :
    ((encode (List.intercalate [','] ((first :: rest).map writeField) ++ ['\n'])).foldl
      Scan.step s).At .between [] [] (rows ++ [fields ++ (first :: rest).map encode]) := by
  induction rest generalizing s fields first with
  | nil =>
    rcases h.foldl_field first with ⟨place, hplace, hfield⟩
    rw [List.map_singleton, List.intercalate_singleton, encode_append, List.foldl_append]
    exact hfield.step_newline hplace
  | cons second rest ih =>
    rcases h.foldl_field first with ⟨place, hplace, hfield⟩
    have hrest := ih (hfield.step_comma hplace) second
    rw [List.append_assoc] at hrest
    rw [List.map_cons, List.map_cons, List.intercalate_cons_cons, List.append_assoc,
      encode_append, List.foldl_append, encode_append, List.foldl_append]
    exact hrest

end At

/-- In front of a record, a byte that begins one is read as the first of a field. -/
theorem step_between {s : Scan} (hplace : s.place = .between) {b : UInt8}
    (hbreak : isBreak b = false) (hhash : b ≠ hash) :
    s.step b = { s with place := .fieldStart }.step b := by
  have hread : (s.advance b).read b = (s.advance b).firstByte b := by
    have hadvance : (s.advance b).place = .between := hplace
    rw [read, hadvance]
    show (if isBreak b = true then _ else if b = hash then _ else _ : Scan) = _
    rw [hbreak, if_neg Bool.false_ne_true, if_neg hhash]
  rw [step, hread]
  show (s.advance b).firstByte b =
    { s.advance b with place := .fieldStart }.firstByte b
  rw [firstByte, firstByte, plainByte, plainByte, hbreak]
  split_ifs <;> rfl

/-- In front of a record, a character that begins one is read as the first of a field. -/
theorem foldl_between {s : Scan} (hplace : s.place = .between) {c : Char} (hnewline : c ≠ '\n')
    (hreturn : c ≠ '\r') (hhash : c ≠ '#') (cs : List Char) :
    (encode (c :: cs)).foldl step s =
      (encode (c :: cs)).foldl step { s with place := .fieldStart } := by
  rw [encode_cons]
  cases hbytes : String.utf8EncodeChar c with
  | nil => exact absurd hbytes String.utf8EncodeChar_ne_nil
  | cons b bytes =>
    have hother : ∀ a : Char, a.toNat < 0x80 → c ≠ a → b ≠ a.toUInt8 := by
      rintro a ha hne rfl
      exact hne ((mem_encodeChar_iff ha).mp (hbytes ▸ List.mem_cons_self)).symm
    have hbreak : isBreak b = false := isBreak_eq_false_iff.mpr
      ⟨hother '\n' (by decide) hnewline, hother '\r' (by decide) hreturn⟩
    rw [List.cons_append, List.foldl_cons, List.foldl_cons,
      step_between hplace hbreak (hother '#' (by decide) hhash)]

end Scan

/-- What is written for a field begins with a quote or like the field. -/
theorem writeField_cons (c : Char) (cs : List Char) :
    ∃ a as, writeField (c :: cs) = a :: as ∧ (a = '"' ∨ a = c ∧ isSpecial c = false) := by
  rw [writeField]
  split_ifs with hspecial
  · exact ⟨'"', _, rfl, Or.inl rfl⟩
  · rw [List.any_cons, Bool.or_eq_true, not_or] at hspecial
    exact ⟨c, cs, rfl, Or.inr ⟨rfl, eq_false_of_ne_true hspecial.1⟩⟩

/-- The first character of a row: a quote, a comma or what its first field begins with. -/
theorem writeRow_cons (first : List Char) (rest : List (List Char)) :
    ∃ a as, writeRow (first :: rest) = a :: as ∧
      (a = '"' ∨ a = ',' ∨ first.head? = some a ∧ isSpecial a = false) := by
  cases first with
  | nil =>
    cases rest with
    | nil => exact ⟨'"', ['"'], rfl, Or.inl rfl⟩
    | cons second rest =>
      have hrow : writeRow ([] :: second :: rest) =
          List.intercalate [','] ([] :: writeField second :: rest.map writeField) := rfl
      rw [hrow, List.intercalate_cons_cons]
      exact ⟨',', _, rfl, Or.inr (Or.inl rfl)⟩
  | cons c first =>
    rcases writeField_cons c first with ⟨a, as, hfield, ha⟩
    have hfirst : a = '"' ∨ a = ',' ∨ (c :: first).head? = some a ∧ isSpecial a = false := by
      rcases ha with hquote | ⟨rfl, hordinary⟩
      · exact Or.inl hquote
      · exact Or.inr (Or.inr ⟨rfl, hordinary⟩)
    have hrow : writeRow ((c :: first) :: rest) =
        List.intercalate [','] ((a :: as) :: rest.map writeField) := by
      rw [← hfield]
      rfl
    rw [hrow]
    cases rest with
    | nil => exact ⟨a, as, List.intercalate_singleton, hfirst⟩
    | cons second rest =>
      rw [List.map_cons, List.intercalate_cons_cons]
      exact ⟨a, _, rfl, hfirst⟩

/-- A row may begin with any field that begins no comment. -/
def Readable (fields : List (List Char)) : Prop :=
  ∃ first rest, fields = first :: rest ∧ first.head? ≠ some '#'

/-- A row takes the scan from in front of it to in front of the next one. -/
theorem Scan.At.foldl_row {s : Scan} {rows : List (List (List UInt8))}
    (h : s.At .between [] [] rows) {fields : List (List Char)} (hfields : Readable fields) :
    ((encode (writeRow fields ++ ['\n'])).foldl Scan.step s).At .between [] []
      (rows ++ [fields.map encode]) := by
  rcases hfields with ⟨first, rest, rfl, hhash⟩
  have hstart : { s with place := .fieldStart }.At .fieldStart [] [] rows := h.moved .fieldStart
  have hfrom : ((encode (writeRow (first :: rest) ++ ['\n'])).foldl Scan.step
      { s with place := .fieldStart }).At .between [] []
        (rows ++ [(first :: rest).map encode]) := by
    -- a row of one empty field is written as a pair of quotes
    rcases first with - | ⟨c, first⟩ <;> rcases rest with - | ⟨second, rest⟩
    · exact hstart.step_open.step_close.step_newline rfl
    all_goals exact hstart.foldl_fields _ _
  rcases writeRow_cons first rest with ⟨a, as, hrow, ha⟩
  have hbegins : a ≠ '\n' ∧ a ≠ '\r' ∧ a ≠ '#' := by
    rcases ha with rfl | rfl | ⟨hfirst, hordinary⟩
    · decide
    · decide
    · refine ⟨?_, ?_, ?_⟩ <;> rintro rfl
      · exact nomatch hordinary
      · exact nomatch hordinary
      · exact hhash hfirst
  rw [hrow] at hfrom ⊢
  rwa [List.cons_append,
    Scan.foldl_between h.place_eq hbegins.1 hbegins.2.1 hbegins.2.2 (as ++ ['\n'])]

/-! ## A table -/

theorem Scan.At.foldl_rows {s : Scan} {rows : List (List (List UInt8))}
    (h : s.At .between [] [] rows) {more : List (List (List Char))}
    (hmore : ∀ fields ∈ more, Readable fields) :
    ((encode (more.flatMap fun fields => writeRow fields ++ ['\n'])).foldl Scan.step s).At
      .between [] [] (rows ++ more.map (·.map encode)) := by
  induction more generalizing s rows with
  | nil => rwa [List.map_nil, List.append_nil]
  | cons fields more ih =>
    rw [List.forall_mem_cons] at hmore
    have hrest := ih (h.foldl_row hmore.1) hmore.2
    rw [List.append_assoc] at hrest
    rw [List.flatMap_cons, encode_append, List.foldl_append]
    exact hrest

/-- A text that does not begin with the mark of the encoding is read from its first byte on. -/
theorem start_encode {cs : List Char} (hmark : cs.head? ≠ some '\uFEFF') :
    start (encode cs) = ({}, encode cs) := by
  refine if_neg fun hprefix => ?_
  rcases List.isPrefixOf_iff_prefix.mp hprefix with ⟨rest, hrest⟩
  cases cs with
  | nil => exact nomatch hrest
  | cons c cs =>
    have hread := next?_encodeChar c (encode cs)
    have hread' := next?_encodeChar '\uFEFF' rest
    have hsame : String.utf8EncodeChar '\uFEFF' ++ rest = String.utf8EncodeChar c ++ encode cs :=
      hrest
    rw [hsame, hread, Option.some.injEq, Prod.mk.injEq] at hread'
    exact hmark (congrArg some hread'.1)

theorem toList_table (header : List String) {rows : List (List String)} (hrows : rows ≠ []) :
    (table header rows).toList = ((header :: rows).map (·.map (·.toList))).flatMap fun fields =>
      writeRow fields ++ ['\n'] := by
  have hrow : ∀ fields, (row fields).toList = writeRow (fields.map (·.toList)) ++ ['\n'] := by
    intro fields
    rw [row, String.toList_append, String.toList_ofList]
    rfl
  rw [table, if_neg (by rwa [List.isEmpty_iff]), String.toList_join, List.flatMap_map,
    List.flatMap_map]
  exact congrArg (fun f => (header :: rows).flatMap f) (funext hrow)

/-- The records of a table are its header and its rows. -/
theorem records_table {header : List String} {rows : List (List String)} (hrows : rows ≠ [])
    (hmark : (writeRow (header.map (·.toList))).head? ≠ some '\uFEFF')
    (hreadable : ∀ fields ∈ header :: rows, Readable (fields.map (·.toList))) :
    (records (table header rows).toUTF8.data.toList).map (·.fields) =
      (header :: rows).map (·.map fun field => encode field.toList) := by
  have htext := toList_table header hrows
  have hfirst : (table header rows).toList.head? ≠ some '\uFEFF' := by
    rcases hreadable header List.mem_cons_self with ⟨first, rest, hheader, -⟩
    rcases writeRow_cons first rest with ⟨c, cs, hrow, -⟩
    rw [htext, List.map_cons, List.flatMap_cons, hheader, hrow]
    rwa [hheader, hrow] at hmark
  have hempty : ({} : Scan).At .between [] [] [] := ⟨rfl, rfl, rfl, rfl⟩
  have hscan := hempty.foldl_rows (List.forall_mem_map.mpr hreadable)
  rw [← htext, List.nil_append] at hscan
  rw [records, Text.Utf8.toList_data_toUTF8, start_encode hfirst]
  show ((encode (table header rows).toList).foldl Scan.step {}).finish.records.toList.map
    (·.fields) = _
  rw [Scan.finish, hscan.place_eq]
  show ((encode (table header rows).toList).foldl Scan.step {}).records.toList.map (·.fields) = _
  rw [hscan.rows_eq, List.map_map]
  refine List.map_congr_left fun fields _ => ?_
  exact List.map_map

end CacheLab.Csv
