import CacheLab.RequestLog.Row
import CacheLab.Proofs.Text.Utf8
import Mathlib.Data.List.DropRight

/-!
# CacheLab.Proofs.RequestLog.Row — a written request reads back

The fields of a row are read in three steps: white space is taken off the bytes, the bytes are
decoded, and white space is taken off the characters. None of them changes a field that has no
white space at its ends (`text_encode`). The digits of a word have none, and read back as the word
(`word_toString`); so a row under the header of a written log is the request that was written
(`read_write`).
-/

namespace CacheLab

/-! ## Numbers -/

namespace Numeral

theorem isDigit_bounds {c : Char} (hc : c.isDigit = true) : 48 ≤ c.toNat ∧ c.toNat ≤ 57 := by
  rw [Char.isDigit, Bool.and_eq_true, decide_eq_true_eq, decide_eq_true_eq] at hc
  exact hc

theorem digit?_of_isDigit {c : Char} (hc : c.isDigit = true) :
    digit? 10 c = some (c.toNat - '0'.toNat) := by
  have hbounds := isDigit_bounds hc
  have hvalue : c.toNat - '0'.toNat < 10 := by
    show c.toNat - 48 < 10
    omega
  have hrange : '0' ≤ c ∧ c ≤ '9' := hbounds
  rw [digit?, if_pos hrange, Option.filter_some, if_pos (decide_eq_true hvalue)]

theorem le_ofDigitChars (cs : List Char) (n : Nat) : n ≤ Nat.ofDigitChars 10 cs n := by
  induction cs generalizing n with
  | nil => exact Nat.le_refl n
  | cons c cs ih =>
    rw [Nat.ofDigitChars_cons]
    exact Nat.le_trans (by omega) (ih _)

/-- Digits are read as their value, and no digit leaves the range before the last one does. -/
theorem readDigits_ofDigitChars {limit : Nat} {cs : List Char}
    (hdigits : ∀ c ∈ cs, c.isDigit = true) {n : Nat} (hlimit : Nat.ofDigitChars 10 cs n < limit) :
    readDigits 10 limit cs n = .ok (Nat.ofDigitChars 10 cs n) := by
  induction cs generalizing n with
  | nil => rfl
  | cons c cs ih =>
    rw [List.forall_mem_cons] at hdigits
    rw [Nat.ofDigitChars_cons, Nat.mul_comm] at hlimit ⊢
    have hvalue := Nat.lt_of_le_of_lt (le_ofDigitChars cs _) hlimit
    rw [readDigits, digit?_of_isDigit hdigits.1]
    show (if n * 10 + (c.toNat - '0'.toNat) < limit then _ else _ : Except NumeralError Nat) = _
    rw [if_pos hvalue, ih hdigits.2 hlimit]

theorem isDigit_of_mem_toDigits {n : Nat} : ∀ c ∈ Nat.toDigits 10 n, c.isDigit = true :=
  fun _ hc => Nat.isDigit_of_mem_toDigits (by decide) (by decide) hc

theorem read_toDigits {limit n : Nat} (hn : n < limit) :
    read 10 limit (Nat.toDigits 10 n) = .ok n := by
  have hdigits := isDigit_of_mem_toDigits (n := n)
  have hread : readDigits 10 limit (Nat.toDigits 10 n) 0 = .ok n := by
    rw [readDigits_ofDigitChars hdigits (by rwa [Nat.ofDigitChars_ten_toDigits]),
      Nat.ofDigitChars_ten_toDigits]
  unfold read
  split
  case h_1 hnil => exact absurd hnil Nat.toDigits_ne_nil
  case h_2 hplus => exact nomatch hdigits '+' (hplus ▸ List.mem_cons_self)
  case h_3 hplus => exact nomatch hdigits '+' (hplus ▸ List.mem_cons_self)
  case h_4 => exact hread

end Numeral

namespace Row

theorem toList_toString (n : Nat) : (toString n).toList = Nat.toDigits 10 n := by
  rw [Nat.toString_eq_ofList_toDigits, String.toList_ofList]

/-- A written word is read in base ten: there is no `x` behind its first digit. -/
theorem word_toString {n : Nat} (hn : n < wordCount) : word (toString n).toList = .ok n := by
  rw [toList_toString]
  unfold word
  split
  case h_1 hx =>
    exact nomatch Numeral.isDigit_of_mem_toDigits 'x'
      (hx ▸ List.mem_cons_of_mem '0' List.mem_cons_self)
  case h_2 => exact Numeral.read_toDigits hn

end Row

/-! ## White space -/

namespace Text

theorem rdropWhile_dropWhile_eq_self {α : Type} {p : α → Bool} {l : List α} :
    (l.dropWhile p).rdropWhile p = l ↔ l.dropWhile p = l ∧ l.rdropWhile p = l := by
  constructor
  · intro h
    have hprefix := (List.rdropWhile_prefix p (l.dropWhile p)).length_le
    have hsuffix := List.dropWhile_suffix (l := l) p
    rw [h] at hprefix
    have hleft := hsuffix.eq_of_length (Nat.le_antisymm hsuffix.length_le hprefix)
    rw [hleft] at h
    exact ⟨hleft, h⟩
  · rintro ⟨hleft, hright⟩
    rw [hleft, hright]

theorem isBlank_of_isDigit {c : Char} (hc : c.isDigit = true) : isBlank c = false := by
  have hten : ∀ n < 10, isBlank (Char.ofNat (48 + n)) = false := by decide
  have hbounds := Numeral.isDigit_bounds hc
  have hblank := hten (c.toNat - 48) (by omega)
  rwa [Nat.add_sub_cancel' hbounds.1, Char.ofNat_toNat] at hblank

theorem trimChars_of_not_blank {cs : List Char} (hcs : ∀ c ∈ cs, isBlank c = false) :
    trimChars cs = cs := by
  refine rdropWhile_dropWhile_eq_self.mpr ⟨List.dropWhile_eq_self_iff.mpr ?_,
    List.rdropWhile_eq_self_iff.mpr ?_⟩
  · intro hpos
    rw [hcs _ (List.getElem_mem hpos)]
    exact Bool.false_ne_true
  · intro hne
    rw [hcs _ (List.getLast_mem hne)]
    exact Bool.false_ne_true

theorem trimChars_toList {s : String} (hs : trim s = s) : trimChars s.toList = s.toList := by
  have hchars := congrArg String.toList hs
  rwa [trim, String.toList_ofList] at hchars

end Text

namespace Row

open Text.Utf8 (encode encode_append encode_cons decode_encode mem_encodeChar_iff)

theorem not_isBlankByte {c : Char} (hc : Text.isBlank c = false) {b : UInt8}
    (hb : b ∈ String.utf8EncodeChar c) : ¬ isBlankByte b = true := by
  have habsent : ∀ a : Char, Text.isBlank a = true → a.toNat < 0x80 → b ≠ a.toUInt8 := by
    rintro a ha hascii rfl
    rw [(mem_encodeChar_iff hascii).mp hb, hc] at ha
    exact nomatch ha
  rw [isBlankByte]
  simp only [Bool.or_eq_true, decide_eq_true_eq]
  rintro ((((hb | hb) | hb) | hb) | hb)
  · exact habsent ' ' (by decide) (by decide) hb
  · exact habsent '\t' (by decide) (by decide) hb
  · exact habsent '\n' (by decide) (by decide) hb
  · exact habsent '\x0c' (by decide) (by decide) hb
  · exact habsent '\r' (by decide) (by decide) hb

/-- The bytes of trimmed characters are trimmed: a byte of white space is a character by itself. -/
theorem trimBytes_encode {cs : List Char} (hcs : Text.trimChars cs = cs) :
    trimBytes (encode cs) = encode cs := by
  rcases Text.rdropWhile_dropWhile_eq_self.mp hcs with ⟨hleft, hright⟩
  refine Text.rdropWhile_dropWhile_eq_self.mpr ⟨?_, ?_⟩
  · -- the first byte is one of the first character
    cases cs with
    | nil => rfl
    | cons c cs =>
      have hc : Text.isBlank c = false := eq_false_of_ne_true
        (List.dropWhile_eq_self_iff.mp hleft (Nat.zero_lt_succ _))
      rw [encode_cons]
      cases hbytes : String.utf8EncodeChar c with
      | nil => exact absurd hbytes String.utf8EncodeChar_ne_nil
      | cons b bytes =>
        exact List.dropWhile_cons_of_neg (not_isBlankByte hc (hbytes ▸ List.mem_cons_self))
  · -- the last byte is one of the last character
    rcases cs.eq_nil_or_concat' with rfl | ⟨cs, c, rfl⟩
    · rfl
    · have hlast := List.rdropWhile_eq_self_iff.mp hright (by simp)
      rw [List.getLast_append_singleton] at hlast
      have hc : Text.isBlank c = false := eq_false_of_ne_true hlast
      rw [encode_append, encode, encode, List.flatMap_singleton]
      rcases (String.utf8EncodeChar c).eq_nil_or_concat' with hbytes | ⟨bytes, b, hbytes⟩
      · exact absurd hbytes String.utf8EncodeChar_ne_nil
      · have hb : ¬ isBlankByte b = true :=
          not_isBlankByte hc (hbytes ▸ List.mem_append_right _ (List.mem_singleton_self b))
        rw [hbytes, ← List.append_assoc]
        exact List.rdropWhile_concat_neg _ _ _ hb

/-! ## Fields -/

/-- A field without white space at its ends reads back. -/
theorem text_encode {s : String} (hs : Text.trim s = s) (i : Nat) :
    text i (encode s.toList) = .ok s := by
  rw [text, trimBytes_encode (Text.trimChars_toList hs), decode_encode]
  exact congrArg Except.ok hs

theorem texts_encode {r : Csv.Record} {fields : List String}
    (hfields : r.fields = fields.map fun field => encode field.toList)
    (htrim : ∀ field ∈ fields, Text.trim field = field) : texts r = .ok fields := by
  have hfrom : ∀ i, ((fields.map fun field => encode field.toList).zipIdx i).mapM
      (fun field => text field.2 field.1) = .ok fields := by
    clear hfields
    induction fields with
    | nil => exact fun _ => rfl
    | cons field fields ih =>
      rw [List.forall_mem_cons] at htrim
      intro i
      rw [List.map_cons, List.zipIdx_cons, List.mapM_cons, ih htrim.2]
      show (text i (encode field.toList) >>= fun s => Except.ok (s :: fields)) = .ok _
      rw [text_encode htrim.1]
      rfl
  rw [texts, hfields]
  exact hfrom 0

theorem trim_toString (n : Nat) : Text.trim (toString n) = toString n := by
  have hdigits : ∀ c ∈ Nat.toDigits 10 n, Text.isBlank c = false :=
    fun c hc => Text.isBlank_of_isDigit (Numeral.isDigit_of_mem_toDigits c hc)
  rw [Text.trim, toList_toString, Text.trimChars_of_not_blank hdigits,
    Nat.toString_eq_ofList_toDigits]

end Row

/-! ## Rows -/

/-- The numbers of the request are words. -/
structure Request.InWords (r : Request) : Prop where
  timestamp_lt : r.timestamp < wordCount
  size_lt : r.size < wordCount
  ttl_lt : r.ttl < wordCount

theorem Column.named?_name (c : Column) : Column.named? c.name = some c := by
  cases c <;> decide

namespace Row

theorem number_toString (i : Nat) {n : Nat} (hn : n < wordCount) :
    number i (toString n) = .ok n := by
  rw [number, word_toString hn]
  rfl

/-- A field is read into the column that the header names. -/
theorem Draft.fill_name {d d' : Draft} {c : Column} {i : Nat} {field : String}
    (hnew : d.has c = false) (hset : d.set i field c = .ok d') (header fields : List String) :
    d.fill i (c.name :: header) (field :: fields) = d'.fill (i + 1) header fields := by
  conv => lhs; unfold fill
  rw [Column.named?_name]
  show (if d.has c = true then .error (.duplicate c)
    else d.set i field c >>= fun d => d.fill (i + 1) header fields) = _
  rw [if_neg (by rw [hnew]; exact Bool.false_ne_true), hset]
  rfl

/-- A row that was written under the header of a log is read as the request. -/
theorem readNamed_write {r : Request} (hwords : r.InWords) :
    readNamed (Column.all.map (·.name)) (write r) = .ok r := by
  have htimestamp : ({} : Draft).set 0 (toString r.timestamp) .timestamp =
      .ok { timestamp := some r.timestamp } := by
    rw [Draft.set, number_toString 0 hwords.timestamp_lt]
    rfl
  have hkey : ({ timestamp := some r.timestamp } : Draft).set 1 r.key .key =
      .ok { timestamp := some r.timestamp, key := some r.key } := rfl
  have hsize : ({ timestamp := some r.timestamp, key := some r.key } : Draft).set 2
      (toString r.size) .size =
      .ok { timestamp := some r.timestamp, key := some r.key, size := some r.size } := by
    rw [Draft.set, number_toString 2 hwords.size_lt]
    rfl
  have httl : ({ timestamp := some r.timestamp, key := some r.key, size := some r.size } :
      Draft).set 3 (toString r.ttl) .ttl =
      .ok { timestamp := some r.timestamp, key := some r.key, size := some r.size,
            ttl := some r.ttl } := by
    rw [Draft.set, number_toString 3 hwords.ttl_lt]
    rfl
  rw [readNamed, Column.all, List.map_cons, List.map_cons, List.map_cons, List.map_cons, write,
    Draft.fill_name rfl htimestamp, Draft.fill_name rfl hkey, Draft.fill_name rfl hsize,
    Draft.fill_name rfl httl]
  rfl

/-- The fields of a request have no white space at their ends unless its key has. -/
theorem trim_write {r : Request} (hkey : Text.trim r.key = r.key) :
    ∀ field ∈ write r, Text.trim field = field := by
  rw [write]
  simp only [List.forall_mem_cons]
  exact ⟨trim_toString _, hkey, trim_toString _, trim_toString _, fun _ h => nomatch h⟩

theorem read_write {r : Request} (hwords : r.InWords) (hkey : Text.trim r.key = r.key)
    {record : Csv.Record}
    (hrecord : record.fields = (write r).map fun field => Text.Utf8.encode field.toList) :
    read (some (Column.all.map (·.name))) record = .ok r := by
  rw [read, texts_encode hrecord (trim_write hkey)]
  exact readNamed_write hwords

end Row

end CacheLab
