import CacheLab.Random.ChaCha
import CacheLab.Word

/-!
# CacheLab.Random — a source of random numbers

A `Source` gives out the words of a key one after another. From these words the
other draws are made: `unit` for a fraction, `chance` for an event of a given
probability and `between` for a number of a range. Every number of a range is
equally likely: a draw from the part of the words that the range does not divide
evenly is thrown away and made again.
-/

namespace CacheLab.Random

/-- A source of random words. -/
structure Source where
  key : Key
  /-- The counter of the next block. -/
  counter : UInt64 := 0
  /-- The words of the block before that are left. -/
  words : List UInt32 := []

namespace Source

/-! ## Seeds -/

/-- The next state of the generator that spreads a seed over a key. -/
def nextSeed (state : UInt64) : UInt64 := state * 6364136223846793005 + 11634580027462260723

/-- The word that the generator makes of a state. -/
def seedWord (state : UInt64) : UInt32 :=
  rotateRight (((state >>> 18) ^^^ state) >>> 27).toUInt32 (state >>> 59).toUInt32

/-- The source for a seed. -/
def ofSeed (seed : UInt64) : Source where
  key := Vector.ofFn fun i : Fin 8 => seedWord (Nat.repeat nextSeed (i + 1) seed)

/-- The source whose key is made of eight drawn numbers. -/
def ofDraws (draws : Nat → Nat) : Source where
  key := Vector.ofFn fun i : Fin 8 => (draws i).toUInt32

/-! ## Draws -/

/-- The next word. -/
def word : StateM Source UInt32 := fun s =>
  match s.words with
  | w :: words => (w, { s with words })
  | [] =>
    let block := ChaCha.block s.key s.counter
    (block[0], { s with counter := s.counter + 1, words := block.toList.drop 1 })

/-- The next two words as one, the lower one first. -/
def doubleWord : StateM Source UInt64 := do
  let low ← word
  let high ← word
  return (high.toUInt64 <<< 32) ||| low.toUInt64

/-- A fraction, from zero on and less than one. -/
def unit : StateM Source Float := do
  let draw ← doubleWord
  return (draw >>> 11).toFloat / 9007199254740992.0

/-- Whether an event of probability `p` happens. No word is used for a certain one. -/
def chance (p : Float) : StateM Source Bool := do
  if p == 1.0 then return true
  return (← doubleWord) < (p * 18446744073709551616.0).toUInt64

/-- The greatest number of draws for one number. At least every other word is
good, so a generator of random words gives a good one long before that. A source
that gives none in so many draws, which an arbitrary one may do, is asked no
further, and `below` answers 0. -/
def patience : Nat := 1000

/-- A number below `range` from draws below `count`. A draw is spread over the
range by multiplication; `zone` marks the part that is spread evenly. When all
draws that are allowed lie outside of it, the answer is 0. -/
def below (draw : StateM Source Nat) (count range zone : Nat) : Nat → StateM Source Nat
  | 0 => return 0
  | fuel + 1 => do
    let product := (← draw) * range
    if product % count ≤ zone then return product / count
    below draw count range zone fuel

/-- A number from `low` to `high`, from draws below `count`, a power of two. -/
def between (draw : StateM Source Nat) (count low high : Nat) : StateM Source Nat := do
  let range := high - low + 1
  if range = count then draw
  else
    let zone := (range <<< (count.log2 - 1 - range.log2)) - 1
    return low + (← below draw count range zone patience)

/-- A number below `n`, from single words. -/
def belowWord (n : Nat) : StateM Source Nat :=
  between (do return (← word).toNat) halfWordCount 0 (n - 1)

/-- A number from `low` to `high`, from pairs of words. -/
def betweenWords (low high : Nat) : StateM Source Nat :=
  between (do return (← doubleWord).toNat) wordCount low high

end Source

end CacheLab.Random
