import CacheLab.Text.Utf8
import Mathlib.Data.List.Basic

/-!
# CacheLab.Proofs.Text.Utf8 — what is encoded reads back

`encodeChar_shape` lists the four forms of a character: one byte below 128, or two to four bytes
from 128 on. In each of them the first sequence of some bytes reads back as the character
(`next?_encodeChar`), and so, by induction on the characters, do all of them (`decode_encode`).
-/

namespace CacheLab.Text.Utf8

/-! ## One character -/

/-- The four forms of a character, by its code point. -/
theorem encodeChar_shape (c : Char) :
    (c.toNat < 0x80 ∧ String.utf8EncodeChar c = [UInt8.ofNat c.toNat]) ∨
      (0x80 ≤ c.toNat ∧ c.toNat < 0x800 ∧ String.utf8EncodeChar c =
        [UInt8.ofNat (c.toNat / 64 % 0x20 + 0xC0), UInt8.ofNat (c.toNat % 64 + 0x80)]) ∨
      (0x800 ≤ c.toNat ∧ c.toNat < 0x10000 ∧ String.utf8EncodeChar c =
        [UInt8.ofNat (c.toNat / 4096 % 0x10 + 0xE0), UInt8.ofNat (c.toNat / 64 % 64 + 0x80),
          UInt8.ofNat (c.toNat % 64 + 0x80)]) ∨
      (0x10000 ≤ c.toNat ∧ c.toNat < 0x110000 ∧ String.utf8EncodeChar c =
        [UInt8.ofNat (c.toNat / 262144 % 0x08 + 0xF0), UInt8.ofNat (c.toNat / 4096 % 64 + 0x80),
          UInt8.ofNat (c.toNat / 64 % 64 + 0x80), UInt8.ofNat (c.toNat % 64 + 0x80)]) := by
  have hvalid : c.toNat < 0x110000 := by
    have hchar : c.toNat.isValidChar := c.valid
    rw [Nat.isValidChar] at hchar
    omega
  have henc : String.utf8EncodeChar c =
      if c.toNat ≤ 0x7f then [UInt8.ofNat c.toNat]
      else if c.toNat ≤ 0x7ff then
        [UInt8.ofNat (c.toNat / 64 % 0x20 + 0xC0), UInt8.ofNat (c.toNat % 64 + 0x80)]
      else if c.toNat ≤ 0xffff then
        [UInt8.ofNat (c.toNat / 4096 % 0x10 + 0xE0), UInt8.ofNat (c.toNat / 64 % 64 + 0x80),
          UInt8.ofNat (c.toNat % 64 + 0x80)]
      else
        [UInt8.ofNat (c.toNat / 262144 % 0x08 + 0xF0), UInt8.ofNat (c.toNat / 4096 % 64 + 0x80),
          UInt8.ofNat (c.toNat / 64 % 64 + 0x80), UInt8.ofNat (c.toNat % 64 + 0x80)] := rfl
  rw [henc]
  split_ifs with hone htwo hthree
  · exact Or.inl ⟨by omega, rfl⟩
  · exact Or.inr (Or.inl ⟨by omega, by omega, rfl⟩)
  · exact Or.inr (Or.inr (Or.inl ⟨by omega, by omega, rfl⟩))
  · exact Or.inr (Or.inr (Or.inr ⟨by omega, hvalid, rfl⟩))

theorem toNat_ofNat {n : Nat} (hn : n < 256) : (UInt8.ofNat n).toNat = n :=
  UInt8.toNat_ofNat_of_lt' hn

/-- A byte below 128 is a character by itself. -/
theorem encodeChar_of_mem {c : Char} {b : UInt8} (hb : b ∈ String.utf8EncodeChar c)
    (hlt : b.toNat < 0x80) : c.toNat = b.toNat ∧ String.utf8EncodeChar c = [b] := by
  rcases encodeChar_shape c with ⟨hc, henc⟩ | ⟨hc, hc', henc⟩ | ⟨hc, hc', henc⟩ | ⟨hc, hc', henc⟩
  · rw [henc, List.mem_singleton] at hb
    rw [henc, hb, toNat_ofNat (by omega)]
    exact ⟨rfl, rfl⟩
  all_goals
    rw [henc] at hb
    simp only [List.mem_cons, List.not_mem_nil, or_false] at hb
    exfalso
  · rcases hb with rfl | rfl <;> rw [toNat_ofNat (by omega)] at hlt <;> omega
  · rcases hb with rfl | rfl | rfl <;> rw [toNat_ofNat (by omega)] at hlt <;> omega
  · rcases hb with rfl | rfl | rfl | rfl <;> rw [toNat_ofNat (by omega)] at hlt <;> omega

theorem encodeChar_ascii {a : Char} (ha : a.toNat < 0x80) :
    String.utf8EncodeChar a = [a.toUInt8] := by
  rcases encodeChar_shape a with ⟨-, henc⟩ | ⟨hc, -⟩ | ⟨hc, -⟩ | ⟨hc, -⟩
  · exact henc
  all_goals omega

theorem toNat_toUInt8 {a : Char} (ha : a.toNat < 0x80) : a.toUInt8.toNat = a.toNat :=
  Nat.mod_eq_of_lt (Nat.lt_trans ha (by decide))

/-- A byte of an ASCII character stands for this character and for no part of another. -/
theorem mem_encodeChar_iff {a c : Char} (ha : a.toNat < 0x80) :
    a.toUInt8 ∈ String.utf8EncodeChar c ↔ a = c := by
  constructor
  · intro hbyte
    have hbound : a.toUInt8.toNat < 0x80 := by rwa [toNat_toUInt8 ha]
    have hsame : c.toNat = a.toNat := (encodeChar_of_mem hbyte hbound).1.trans (toNat_toUInt8 ha)
    exact (Char.toNat_inj.mp hsame).symm
  · rintro rfl
    rw [encodeChar_ascii ha]
    exact List.mem_singleton_self _

theorem mem_encode_iff {a : Char} (ha : a.toNat < 0x80) (cs : List Char) :
    a.toUInt8 ∈ encode cs ↔ a ∈ cs := by
  rw [encode, List.mem_flatMap]
  constructor
  · rintro ⟨c, hc, hbyte⟩
    rwa [(mem_encodeChar_iff ha).mp hbyte]
  · intro hmem
    exact ⟨a, hmem, (mem_encodeChar_iff ha).mpr rfl⟩

theorem charFrom?_eq {least n : Nat} {c : Char} (hn : n = c.toNat) (hleast : least ≤ n) :
    charFrom? least n = some c := by
  subst hn
  exact dif_pos ⟨hleast, c.valid⟩

theorem tail?_mod (n : Nat) : tail? (UInt8.ofNat (n % 64 + 0x80)) = some (n % 64) := by
  rw [tail?, toNat_ofNat (by omega), if_pos (by omega), Nat.add_sub_cancel]

theorem next?_one {a : UInt8} (rest : List UInt8) (ha : a.toNat < 0x80) :
    next? (a :: rest) = (charFrom? 0 a.toNat).map (·, rest) :=
  if_pos ha

theorem next?_two {a b : UInt8} {y : Nat} (rest : List UInt8)
    (hleast : 0xC0 ≤ a.toNat) (hlt : a.toNat < 0xE0) (hb : tail? b = some y) :
    next? (a :: b :: rest) = (charFrom? 0x80 ((a.toNat - 0xC0) * 0x40 + y)).map (·, rest) := by
  rw [next?, if_neg (by omega), if_neg (by omega), if_pos hlt]
  simp only [hb, bind_pure_comp, Option.map_eq_map, Option.bind_eq_bind, Option.bind_some]

theorem next?_three {a b c : UInt8} {y z : Nat} (rest : List UInt8)
    (hleast : 0xE0 ≤ a.toNat) (hlt : a.toNat < 0xF0) (hb : tail? b = some y)
    (hc : tail? c = some z) :
    next? (a :: b :: c :: rest) =
      (charFrom? 0x800 ((a.toNat - 0xE0) * 0x1000 + y * 0x40 + z)).map (·, rest) := by
  rw [next?, if_neg (by omega), if_neg (by omega), if_neg (by omega), if_pos hlt]
  simp only [hb, hc, bind_pure_comp, Option.map_eq_map, Option.bind_eq_bind, Option.bind_some]

theorem bind_tails {b c d : UInt8} {y z w : Nat} (hb : tail? b = some y) (hc : tail? c = some z)
    (hd : tail? d = some w) (code : Nat → Nat → Nat → Option Char) (rest : List UInt8) :
    (do
      let e ← code (← tail? b) (← tail? c) (← tail? d)
      return (e, rest)) = (code y z w).map (·, rest) := by
  rw [hb, hc, hd, Option.map_eq_bind]
  rfl

theorem next?_four {a b c d : UInt8} {y z w : Nat} (rest : List UInt8)
    (hleast : 0xF0 ≤ a.toNat) (hb : tail? b = some y) (hc : tail? c = some z)
    (hd : tail? d = some w) :
    next? (a :: b :: c :: d :: rest) =
      (charFrom? 0x10000 ((a.toNat - 0xF0) * 0x40000 + y * 0x1000 + z * 0x40 + w)).map
        (·, rest) := by
  rw [next?, if_neg (by omega), if_neg (by omega), if_neg (by omega), if_neg (by omega)]
  -- `bind_tails` knows nothing of the code, so that nothing unfolds the product with `0x40000`
  exact bind_tails hb hc hd (fun y z w =>
    charFrom? 0x10000 ((a.toNat - 0xF0) * 0x40000 + y * 0x1000 + z * 0x40 + w)) rest

/-- The first character of some bytes is read back. -/
theorem next?_encodeChar (c : Char) (rest : List UInt8) :
    next? (String.utf8EncodeChar c ++ rest) = some (c, rest) := by
  rcases encodeChar_shape c with ⟨hc, henc⟩ | ⟨hc, hc', henc⟩ | ⟨hc, hc', henc⟩ | ⟨hc, hc', henc⟩
  · have hfirst : (UInt8.ofNat c.toNat).toNat = c.toNat := toNat_ofNat (by omega)
    rw [henc, List.cons_append, List.nil_append, next?_one rest (by omega), hfirst,
      charFrom?_eq rfl (Nat.zero_le _)]
    rfl
  · have hfirst : (UInt8.ofNat (c.toNat / 64 % 0x20 + 0xC0)).toNat = c.toNat / 64 + 0xC0 := by
      rw [toNat_ofNat (by omega)]
      omega
    rw [henc, List.cons_append, List.cons_append, List.nil_append,
      next?_two rest (by omega) (by omega) (tail?_mod _), hfirst,
      charFrom?_eq (c := c) (by omega) (by omega)]
    rfl
  · have hfirst : (UInt8.ofNat (c.toNat / 4096 % 0x10 + 0xE0)).toNat = c.toNat / 4096 + 0xE0 := by
      rw [toNat_ofNat (by omega)]
      omega
    rw [henc, List.cons_append, List.cons_append, List.cons_append, List.nil_append,
      next?_three rest (by omega) (by omega) (tail?_mod _) (tail?_mod _), hfirst,
      charFrom?_eq (c := c) (by omega) (by omega)]
    rfl
  · have hfirst : (UInt8.ofNat (c.toNat / 262144 % 0x08 + 0xF0)).toNat =
        c.toNat / 262144 + 0xF0 := by
      rw [toNat_ofNat (by omega)]
      omega
    rw [henc, List.cons_append, List.cons_append, List.cons_append, List.cons_append,
      List.nil_append,
      next?_four rest (by omega) (tail?_mod _) (tail?_mod _) (tail?_mod _), hfirst,
      charFrom?_eq (c := c) (by omega) (by omega)]
    rfl

/-! ## All characters -/

theorem encode_cons (c : Char) (cs : List Char) :
    encode (c :: cs) = String.utf8EncodeChar c ++ encode cs :=
  List.flatMap_cons

theorem length_le_encode (cs : List Char) : cs.length ≤ (encode cs).length := by
  induction cs with
  | nil => exact Nat.zero_le _
  | cons c cs ih =>
    have hpos : 0 < (String.utf8EncodeChar c).length := by
      rw [String.length_utf8EncodeChar]
      exact c.utf8Size_pos
    rw [encode_cons, List.length_append, List.length_cons]
    omega

theorem decodeFrom_encode (done cs : List Char) (offset : Nat) {fuel : Nat}
    (hfuel : cs.length ≤ fuel) :
    decodeFrom done offset fuel (encode cs) = .ok (done.reverse ++ cs) := by
  induction cs generalizing done offset fuel with
  | nil =>
    rw [List.append_nil]
    cases fuel <;> rfl
  | cons c cs ih =>
    cases fuel with
    | zero => exact absurd hfuel (Nat.not_succ_le_zero _)
    | succ fuel =>
      have hstep : decodeFrom done offset (fuel + 1) (encode (c :: cs)) =
          decodeFrom (c :: done) (offset + c.utf8Size) fuel (encode cs) := by
        rw [encode_cons, decodeFrom, next?_encodeChar]
        intro hnil
        exact String.utf8EncodeChar_ne_nil (List.append_eq_nil_iff.mp hnil).1
      rw [hstep, ih _ _ (Nat.le_of_succ_le_succ hfuel), List.reverse_cons, List.append_assoc]
      rfl

/-- Characters that are encoded read back. -/
theorem decode_encode (cs : List Char) : decode (encode cs) = .ok cs :=
  decodeFrom_encode [] cs 0 (length_le_encode cs)

end CacheLab.Text.Utf8
