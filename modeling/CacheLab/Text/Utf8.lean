/-!
# CacheLab.Text.Utf8 — characters as bytes

`encode` writes characters as UTF-8, and `decode` reads them back. Bytes that
are no UTF-8 are refused with the number of bytes before the first sequence
that is not a character: one that is too short, too long for its character, or
the code of no character.
-/

namespace CacheLab.Text.Utf8

/-- The bytes of a list of characters. -/
def encode (cs : List Char) : List UInt8 := cs.flatMap String.utf8EncodeChar

/-- The number that a byte inside a sequence adds to the code, if it is such a byte. -/
def tail? (b : UInt8) : Option Nat :=
  if 0x80 ≤ b.toNat ∧ b.toNat < 0xC0 then some (b.toNat - 0x80) else none

/-- The character with a code point, if it needs no fewer than the code points
from `least` on, so that there is one way only to write it. -/
def charFrom? (least n : Nat) : Option Char :=
  if h : least ≤ n ∧ n.isValidChar then some (Char.ofNatAux n h.2) else none

/-- The first character and the bytes behind it. -/
def next? : List UInt8 → Option (Char × List UInt8)
  | [] => none
  | a :: rest =>
    let n := a.toNat
    if n < 0x80 then (charFrom? 0 n).map (·, rest)
    else if n < 0xC0 then none
    else if n < 0xE0 then
      match rest with
      | b :: rest => do
        let c ← charFrom? 0x80 ((n - 0xC0) * 0x40 + (← tail? b))
        return (c, rest)
      | _ => none
    else if n < 0xF0 then
      match rest with
      | b :: c :: rest => do
        let c ← charFrom? 0x800 ((n - 0xE0) * 0x1000 + (← tail? b) * 0x40 + (← tail? c))
        return (c, rest)
      | _ => none
    else
      match rest with
      | b :: c :: d :: rest => do
        let c ← charFrom? 0x10000
          ((n - 0xF0) * 0x40000 + (← tail? b) * 0x1000 + (← tail? c) * 0x40 + (← tail? d))
        return (c, rest)
      | _ => none

/-- Reads all characters behind those of `done`, which holds the last one first,
or tells how many bytes stand before the first fault. `fuel` bounds the number of
characters and `offset` counts the bytes read. -/
def decodeFrom (done : List Char) (offset : Nat) : Nat → List UInt8 → Except Nat (List Char)
  | _, [] => .ok done.reverse
  | 0, _ => .error offset
  | fuel + 1, bytes =>
    match next? bytes with
    | none => .error offset
    | some (c, rest) => decodeFrom (c :: done) (offset + c.utf8Size) fuel rest

/-- Reads all characters, or tells how many bytes stand before the first fault.
A character takes at least one byte, so the bytes bound the characters. -/
def decode (bytes : List UInt8) : Except Nat (List Char) := decodeFrom [] 0 bytes.length bytes

theorem encode_append (a b : List Char) : encode (a ++ b) = encode a ++ encode b :=
  List.flatMap_append

/-- The bytes of a text are those of its characters. -/
theorem toList_data_toUTF8 (s : String) : s.toUTF8.data.toList = encode s.toList := by
  conv => lhs; rw [← String.ofList_toList (s := s)]
  rw [String.toUTF8, String.toByteArray_ofList, List.utf8Encode, List.data_toByteArray, encode]

end CacheLab.Text.Utf8
