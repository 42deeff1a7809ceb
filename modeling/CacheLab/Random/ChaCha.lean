/-!
# CacheLab.Random.ChaCha — blocks of random words

The ChaCha cipher with twelve rounds turns a key of eight words and a counter
into a block of sixteen words. The blocks for counters 0, 1, 2 and so on are the
random words of the key.
-/

namespace CacheLab.Random

/-- Eight words. -/
abbrev Key : Type := Vector UInt32 8

/-- Sixteen words. -/
abbrev Block : Type := Vector UInt32 16

/-- The bits of a word moved up by `n` places, round the end. -/
def rotateLeft (x n : UInt32) : UInt32 := (x <<< n) ||| (x >>> (32 - n))

/-- The bits of a word moved down by `n` places, round the end. -/
def rotateRight (x n : UInt32) : UInt32 := (x >>> n) ||| (x <<< (32 - n))

namespace ChaCha

/-- Mixes four words of a block. -/
def quarterRound (a b c d : Fin 16) (s : Block) : Block :=
  let s := s.set a (s[a] + s[b])
  let s := s.set d (rotateLeft (s[d] ^^^ s[a]) 16)
  let s := s.set c (s[c] + s[d])
  let s := s.set b (rotateLeft (s[b] ^^^ s[c]) 12)
  let s := s.set a (s[a] + s[b])
  let s := s.set d (rotateLeft (s[d] ^^^ s[a]) 8)
  let s := s.set c (s[c] + s[d])
  s.set b (rotateLeft (s[b] ^^^ s[c]) 7)

/-- Mixes the words of each column of a block, and then of each diagonal. -/
def doubleRound (s : Block) : Block :=
  let s := quarterRound 0 4 8 12 s
  let s := quarterRound 1 5 9 13 s
  let s := quarterRound 2 6 10 14 s
  let s := quarterRound 3 7 11 15 s
  let s := quarterRound 0 5 10 15 s
  let s := quarterRound 1 6 11 12 s
  let s := quarterRound 2 7 8 13 s
  quarterRound 3 4 9 14 s

/-- The number of double rounds. -/
def doubleRounds : Nat := 6

/-- The block before any mixing: four constant words, the key, the counter and
two words that are zero. -/
def start (key : Key) (counter : UInt64) : Block :=
  #v[0x61707865, 0x3320646e, 0x79622d32, 0x6b206574,
    key[0], key[1], key[2], key[3], key[4], key[5], key[6], key[7],
    counter.toUInt32, (counter >>> 32).toUInt32, 0, 0]

/-- The block for a counter: the start mixed, and added to itself unmixed. -/
def block (key : Key) (counter : UInt64) : Block :=
  let s := start key counter
  Vector.zipWith (· + ·) (Nat.repeat doubleRound doubleRounds s) s

end ChaCha

end CacheLab.Random
