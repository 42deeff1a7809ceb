import CacheLab.Proofs.Simulation.Coverage

/-!
# CacheLab.Proofs.Simulation.Exactness — tallies that never leave the words

A replay counts in natural numbers, but what it models counts in words and stops if an addition
leaves them. `Tally.noteLookup?`, `Tally.noteInsertion?` and `Tally.merge?` do the same counting
with additions that may fail, and `Tally.Exact` are the tallies that they come to.

The numbers of a tally only grow. So if they are words in the end, they have been words all along,
and no addition on the way has failed: that is one more property that a replay keeps
(`Tally.Kept.exact`). In the end they are words if the tally covers a trace that is short enough
(`Tally.AreWords.of_covers`).
-/

namespace CacheLab

/-! ## Samplers -/

namespace Sampler

variable {s s' : Sampler} {latency draw : Nat} {draws : Nat → Nat}

theorem areWords_iff : s.areWords = true ↔ s.total < wordCount ∧ s.count < wordCount := by
  rw [areWords, Bool.and_eq_true, decide_eq_true_iff, decide_eq_true_iff]

/-- The numbers of a sampler grow with what it takes in. -/
theorem areWords_of_record (hs : (s.record latency draw).areWords = true) :
    s.areWords = true := by
  rw [areWords_iff] at hs ⊢
  have htotal : s.total + latency < wordCount := hs.1
  have hcount : s.count + 1 < wordCount := hs.2
  omega

theorem areWords_of_merge (hs : (s.merge s' draws).areWords = true) :
    s.areWords = true ∧ s'.areWords = true := by
  rw [areWords_iff] at hs
  rw [areWords_iff, areWords_iff]
  have htotal : s.total + s'.total < wordCount := hs.1
  have hcount : s.count + s'.count < wordCount := hs.2
  omega

end Sampler

/-! ## Counting in words -/

namespace Tally

/-- Counts a lookup, unless a number would leave the range of words. -/
def noteLookup? (t : Tally) (hit : Bool) (latency draw : Nat) : Except Overflow Tally := do
  let gets ← t.gets.record? latency draw
  if hit then
    return { t with hits := ← addWords t.hits 1, gets }
  else
    return { t with misses := ← addWords t.misses 1, gets }

/-- Counts an insertion, unless a number would leave the range of words. -/
def noteInsertion? (t : Tally) (displaced : Bool) (latency draw : Nat) :
    Except Overflow Tally := do
  let puts ← t.puts.record? latency draw
  if displaced then
    return { t with evictions := ← addWords t.evictions 1, puts }
  else
    return { t with puts }

/-- Adds another tally, unless a number would leave the range of words. -/
def merge? (t other : Tally) (draws : Nat → Nat) : Except Overflow Tally := do
  let hits ← addWords t.hits other.hits
  let misses ← addWords t.misses other.misses
  let evictions ← addWords t.evictions other.evictions
  let gets ← t.gets.merge? other.gets draws
  let puts ← t.puts.merge? other.puts draws
  return { hits, misses, evictions, gets, puts }

/-- The tallies that come out if no addition fails. -/
inductive Exact : Tally → Prop where
  | empty : Exact .empty
  | noteLookup {t t' : Tally} {hit : Bool} {latency draw : Nat} :
    t.Exact → t.noteLookup? hit latency draw = .ok t' → Exact t'
  | noteInsertion {t t' : Tally} {displaced : Bool} {latency draw : Nat} :
    t.Exact → t.noteInsertion? displaced latency draw = .ok t' → Exact t'
  | merge {t other t' : Tally} {draws : Nat → Nat} :
    t.Exact → other.Exact → t.merge? other draws = .ok t' → Exact t'

/-- All numbers of a tally are words. -/
structure AreWords (t : Tally) : Prop where
  hits : t.hits < wordCount
  misses : t.misses < wordCount
  evictions : t.evictions < wordCount
  gets : t.gets.areWords = true
  puts : t.puts.areWords = true

namespace AreWords

variable {t other : Tally} {hit displaced : Bool} {latency draw : Nat} {draws : Nat → Nat}

/-- The numbers of a tally grow with what it takes in. -/
theorem of_noteLookup (ht : (t.noteLookup hit latency draw).AreWords) : t.AreWords where
  hits := by
    have hhits := ht.hits
    dsimp only [Tally.noteLookup] at hhits
    split at hhits <;> omega
  misses := by
    have hmisses := ht.misses
    dsimp only [Tally.noteLookup] at hmisses
    split at hmisses <;> omega
  evictions := ht.evictions
  gets := Sampler.areWords_of_record ht.gets
  puts := ht.puts

theorem of_noteInsertion (ht : (t.noteInsertion displaced latency draw).AreWords) :
    t.AreWords where
  hits := ht.hits
  misses := ht.misses
  evictions := by
    have hevictions := ht.evictions
    dsimp only [Tally.noteInsertion] at hevictions
    split at hevictions <;> omega
  gets := ht.gets
  puts := Sampler.areWords_of_record ht.puts

theorem of_merge (ht : (t.merge other draws).AreWords) : t.AreWords ∧ other.AreWords := by
  have hhits : t.hits + other.hits < wordCount := ht.hits
  have hmisses : t.misses + other.misses < wordCount := ht.misses
  have hevictions : t.evictions + other.evictions < wordCount := ht.evictions
  rcases Sampler.areWords_of_merge ht.gets with ⟨hgets, hgets'⟩
  rcases Sampler.areWords_of_merge ht.puts with ⟨hputs, hputs'⟩
  exact ⟨⟨by omega, by omega, by omega, hgets, hputs⟩,
    ⟨by omega, by omega, by omega, hgets', hputs'⟩⟩

/-- If the numbers are words afterwards, no addition fails. -/
theorem noteLookup?_eq (ht : (t.noteLookup hit latency draw).AreWords) :
    t.noteLookup? hit latency draw = .ok (t.noteLookup hit latency draw) := by
  have hgets : t.gets.record? latency draw = .ok (t.gets.record latency draw) := if_pos ht.gets
  rw [noteLookup?, hgets]
  cases hit with
  | true =>
    have hhits : addWords t.hits 1 = .ok (t.hits + 1) := addWords_eq ht.hits
    rw [hhits]
    rfl
  | false =>
    have hmisses : addWords t.misses 1 = .ok (t.misses + 1) := addWords_eq ht.misses
    rw [hmisses]
    rfl

theorem noteInsertion?_eq (ht : (t.noteInsertion displaced latency draw).AreWords) :
    t.noteInsertion? displaced latency draw = .ok (t.noteInsertion displaced latency draw) := by
  have hputs : t.puts.record? latency draw = .ok (t.puts.record latency draw) := if_pos ht.puts
  rw [noteInsertion?, hputs]
  cases displaced with
  | true =>
    have hevictions : addWords t.evictions 1 = .ok (t.evictions + 1) := addWords_eq ht.evictions
    rw [hevictions]
    rfl
  | false => rfl

theorem merge?_eq (ht : (t.merge other draws).AreWords) :
    t.merge? other draws = .ok (t.merge other draws) := by
  have hgets : t.gets.merge? other.gets draws = .ok (t.gets.merge other.gets draws) :=
    if_pos ht.gets
  have hputs : t.puts.merge? other.puts draws = .ok (t.puts.merge other.puts draws) :=
    if_pos ht.puts
  rw [merge?, addWords_eq ht.hits, addWords_eq ht.misses, addWords_eq ht.evictions, hgets, hputs]
  rfl

end AreWords

end Tally

/-! ## Replays -/

variable {limit n : Nat}

/-- If the numbers are words in the end, then no addition has failed. -/
theorem Tally.Kept.exact : Tally.Kept limit fun t => t.AreWords → t.Exact where
  empty _ := .empty
  noteLookup ht _ _ _ _ hwords := .noteLookup (ht hwords.of_noteLookup) hwords.noteLookup?_eq
  noteInsertion ht _ _ _ _ hwords :=
    .noteInsertion (ht hwords.of_noteInsertion) hwords.noteInsertion?_eq
  merge ht hother _ hwords :=
    .merge (ht hwords.of_merge.1) (hother hwords.of_merge.2) hwords.merge?_eq

/-- If even the limit for all operations is a word, then so are all numbers of the tally. -/
theorem Tally.AreWords.of_covers {t : Tally} (ht : t.Covers limit n)
    (hlimit : 2 * n * (limit + 1) < wordCount) : t.AreWords := by
  rcases ht.areWords hlimit with ⟨hn, hcount, htotal⟩
  have hanswered := ht.answered
  have hevictions := ht.evictions
  have hcount : t.gets.count + t.puts.count < wordCount := hcount
  have htotal : t.gets.total + t.puts.total < wordCount := htotal
  constructor
  case hits => omega
  case misses => omega
  case evictions => omega
  case gets => exact Sampler.areWords_iff.mpr ⟨by omega, by omega⟩
  case puts => exact Sampler.areWords_iff.mpr ⟨by omega, by omega⟩

end CacheLab
