import CacheLab.Proofs.Random
import CacheLab.Traffic.Hour
import Mathlib.Data.Nat.ModEq
import Mathlib.Logic.ExistsUnique

/-!
# CacheLab.Proofs.Traffic.Objects — the objects that an hour asks for

A request draws a class of objects and a rank in it, and the window of the hour turns the rank into
the number of an object.

* A class without objects is never drawn (`Hour.pick_size_pos`), so that its size is a divisor.
* A window is a rotation of the numbers of its class as long as base and rank have a sum that is a
  word. That is so for every rank exactly if base and size have such a sum, and then each
  object has one rank (`Window.rotates_iff`). For classes near the top of the range it is not.
* `Hour.requests_extend`: by induction on the requests of an hour, every one of them is for an
  object of its class, and an hour ends early only where a sum is no word.
-/

namespace CacheLab

/-! ## Windows -/

namespace Window

variable {w : Window}

/-- Ranks and objects of a window stand for one another. -/
structure Rotates (w : Window) : Prop where
  number : ∀ rank < w.size, ∃ n < w.size, w.object? rank = .ok n
  rank : ∀ n < w.size, ∃! rank, rank < w.size ∧ w.object? rank = .ok n

/-- A rank has a number of the class, unless the sum of base and rank is too large. -/
theorem object?_cases (hsize : 0 < w.size) (rank : Nat) :
    (w.base + rank < halfWordCount ∧ ∃ n < w.size, w.object? rank = .ok n) ∨
      (halfWordCount ≤ w.base + rank ∧ w.object? rank = .error .addition) := by
  rcases Nat.lt_or_ge (w.base + rank) halfWordCount with hlt | hge
  · exact Or.inl ⟨hlt, _, Nat.mod_lt _ hsize, if_pos hlt⟩
  · exact Or.inr ⟨hge, if_neg (Nat.not_lt.mpr hge)⟩

theorem object?_eq {rank n : Nat} (hrank : w.object? rank = .ok n) :
    (w.base + rank) % w.size = n := by
  rw [object?] at hrank
  split at hrank
  · exact Except.ok.inj hrank
  · cases hrank

/-- Two ranks of a window never have the same number. -/
theorem rank_unique {rank rank' n : Nat} (hrank : rank < w.size) (hrank' : rank' < w.size)
    (hn : w.object? rank = .ok n) (hn' : w.object? rank' = .ok n) : rank = rank' := by
  have hmod : w.base + rank ≡ w.base + rank' [MOD w.size] :=
    (object?_eq hn).trans (object?_eq hn').symm
  exact Nat.ModEq.eq_of_lt_of_lt (Nat.ModEq.add_left_cancel' w.base hmod) hrank hrank'

/-- The rank that a number has. -/
theorem exists_rank {n : Nat} (hn : n < w.size) :
    ∃ rank < w.size, (w.base + rank) % w.size = n := by
  have hpos : 0 < w.size := Nat.zero_lt_of_lt hn
  have hbase : w.base % w.size < w.size := Nat.mod_lt _ hpos
  have hsplit : w.size * (w.base / w.size) + w.base % w.size = w.base := Nat.div_add_mod _ _
  refine ⟨(n + (w.size - w.base % w.size)) % w.size, Nat.mod_lt _ hpos, ?_⟩
  calc (w.base + (n + (w.size - w.base % w.size)) % w.size) % w.size
    _ = (w.base + (n + (w.size - w.base % w.size))) % w.size := Nat.add_mod_mod _ _ _
    _ = (n + w.size * (w.base / w.size + 1)) % w.size := by
      congr 1
      rw [Nat.mul_add_one]
      omega
    _ = n % w.size := Nat.add_mul_mod_self_left _ _ _
    _ = n := Nat.mod_eq_of_lt hn

theorem rotates_iff (hbase : w.base < halfWordCount) :
    w.Rotates ↔ w.base + w.size ≤ halfWordCount := by
  constructor
  · intro hw
    rcases Nat.eq_zero_or_pos w.size with hzero | hpos
    · omega
    · -- the greatest rank has a number
      rcases object?_cases hpos (w.size - 1) with ⟨hlt, -⟩ | ⟨-, herror⟩
      · omega
      · rcases hw.number (w.size - 1) (by omega) with ⟨n, -, hn⟩
        rw [herror] at hn
        cases hn
  · intro hfits
    have hok : ∀ rank < w.size, w.object? rank = .ok ((w.base + rank) % w.size) := by
      intro rank hrank
      exact if_pos (by omega)
    constructor
    case number =>
      intro rank hrank
      exact ⟨_, Nat.mod_lt _ (by omega), hok rank hrank⟩
    case rank =>
      intro n hn
      rcases exists_rank hn with ⟨rank, hrank, hmod⟩
      have hnumber : w.object? rank = .ok n := by rw [hok rank hrank, hmod]
      refine ⟨rank, ⟨hrank, hnumber⟩, ?_⟩
      intro rank' hrank'
      exact rank_unique hrank'.1 hrank hrank'.2 hnumber

/-- The base of a window is a twelfth of its class for each hour, or less. -/
theorem base_le (hour size parts : Nat) (hparts : 12 ≤ parts) :
    hour % period * max (size / parts) 1 ≤ 11 * max (size / 12) 1 := by
  refine Nat.mul_le_mul (Nat.le_pred_of_lt (Nat.mod_lt hour (by decide))) ?_
  exact max_le_max_right 1 (Nat.div_le_div_left hparts (by decide))

end Window

/-! ## Classes of objects -/

/-- Which objects a request can be for. -/
inductive ObjectClass where
  | popular
  | regular
deriving DecidableEq, Repr

namespace ObjectClass

/-- The objects of the class in an hour. -/
def window (p : Profile) (hour : Nat) : ObjectClass → Window
  | popular => .popular p hour
  | regular => .regular p hour

/-- The key of an object of the class. -/
def key : ObjectClass → Nat → String
  | popular, n => s!"popular_obj_{n}"
  | regular, n => s!"regular_obj_{n}"

end ObjectClass

namespace Profile

/-- A profile whose numbers of objects, bytes and seconds are words of the size that they are
given in. -/
structure Fits (p : Profile) : Prop where
  objects_lt : p.objects < halfWordCount
  size_lt : max p.minSize p.maxSize < wordCount
  ttl_lt : max p.minTtl p.maxTtl < wordCount

theorem popular_le (p : Profile) : p.popular ≤ p.objects := by
  refine Nat.div_le_of_le_mul ?_
  rw [Nat.mul_comm]
  exact Nat.mul_le_mul_right p.objects (Nat.min_le_right p.popularObjects 100)

theorem popular_add_regular (p : Profile) : p.popular + p.regular = p.objects :=
  Nat.add_sub_cancel' p.popular_le

end Profile

namespace ObjectClass

variable (p : Profile) (hour : Nat)

theorem size_le (c : ObjectClass) : (c.window p hour).size ≤ p.objects := by
  cases c with
  | popular => exact p.popular_le
  | regular => exact Nat.sub_le _ _

theorem base_le (c : ObjectClass) :
    (c.window p hour).base ≤ 11 * max ((c.window p hour).size / 12) 1 := by
  cases c with
  | popular => exact Window.base_le hour p.popular 12 (by decide)
  | regular => exact Window.base_le hour p.regular 24 (by decide)

/-- With half of all words as objects or fewer, every window is a rotation. -/
theorem rotates_of_le (c : ObjectClass) (hobjects : p.objects ≤ 2147483648) :
    (c.window p hour).Rotates := by
  have hbase := c.base_le p hour
  have hsize := c.size_le p hour
  refine (Window.rotates_iff ?_).mpr ?_
  · rw [halfWordCount]
    omega
  · rw [halfWordCount]
    omega

end ObjectClass

namespace Hour

open CacheLab.Random (Source)

variable {p : Profile} (hour : Nat)

/-! ## Draws of a request -/

/-- The class and the rank that a source draws. -/
def pick (p : Profile) : StateM Source (ObjectClass × Nat) := do
  if ← Source.chance p.popularity then
    return (.popular, ← popularRank p.popular)
  else
    return (.regular, ← Source.belowWord p.regular)

/-- The key is that of the object with the drawn rank in the window of the drawn class. -/
theorem key_eq (p : Profile) (hour : Nat) (source : Source) :
    key p hour source =
      ((((pick p source).1.1.window p hour).object? (pick p source).1.2).map
        (pick p source).1.1.key, (pick p source).2) := by
  rw [key, pick]
  cases hchance : Source.chance p.popularity source with
  | mk happens rest =>
    simp only [bind, StateT.bind, hchance]
    cases happens with
    | true => rfl
    | false => rfl

/-- A class is drawn only if it has objects, and a regular rank is one of the class. -/
theorem pick_spec (hfits : p.Fits) (hobjects : 0 < p.objects) (source : Source) :
    0 < ((pick p source).1.1.window p hour).size ∧
      ((pick p source).1.1 = .regular →
        (pick p source).1.2 < ((pick p source).1.1.window p hour).size) := by
  have hsum := p.popular_add_regular
  have hword := hfits.objects_lt
  cases hchance : Source.chance p.popularity source with
  | mk happens rest =>
    cases happens with
    | true =>
      have hpick : (pick p source).1 = (.popular, (popularRank p.popular rest).1) := by
        simp only [pick, bind, StateT.bind, hchance]
        rfl
      rw [hpick]
      refine ⟨Nat.pos_of_ne_zero fun hzero => ?_, fun hregular => nomatch hregular⟩
      change p.popular = 0 at hzero
      -- without popular objects their probability is zero
      rw [Profile.popularity, if_pos hzero] at hchance
      have hnever := Source.chance_zero source
      rw [hchance] at hnever
      cases hnever
    | false =>
      have hpick : (pick p source).1 = (.regular, (Source.belowWord p.regular rest).1) := by
        simp only [pick, bind, StateT.bind, hchance]
        rfl
      rw [hpick]
      have hpos : 0 < p.regular := by
        refine Nat.pos_of_ne_zero fun hzero => ?_
        -- without regular objects the probability of popular ones is one
        rw [Profile.popularity, if_neg (by omega), if_pos hzero] at hchance
        have hcertain := Source.chance_one source
        rw [hchance] at hcertain
        cases hcertain
      exact ⟨hpos, fun _ => Source.belowWord_lt hpos (by omega) rest⟩

/-- A key names an object of the drawn class, unless the sum of base and rank is too large. -/
theorem key_cases (hfits : p.Fits) (hobjects : 0 < p.objects) (source : Source) :
    (∃ n < ((pick p source).1.1.window p hour).size,
        (key p hour source).1 = .ok ((pick p source).1.1.key n)) ∨
      (halfWordCount ≤ ((pick p source).1.1.window p hour).base + (pick p source).1.2 ∧
        (key p hour source).1 = .error .addition) := by
  rw [key_eq]
  dsimp only
  rcases Window.object?_cases (pick_spec hour hfits hobjects source).1 (pick p source).1.2 with
    ⟨-, n, hn, hnumber⟩ | ⟨hlarge, herror⟩
  · rw [hnumber]
    exact Or.inl ⟨n, hn, rfl⟩
  · rw [herror]
    exact Or.inr ⟨hlarge, rfl⟩

theorem within_mem {a b : Nat} (hword : max a b < wordCount) (source : Source) :
    min a b ≤ (within a b source).1 ∧ (within a b source).1 ≤ max a b :=
  Source.betweenWords_mem min_le_max hword source

/-! ## Requests -/

/-- A request for an object of some class, with a word as its time, and with size and time to live
between their ends. -/
structure Drawn (p : Profile) (hour : Nat) (r : Request) : Prop where
  timestamp_lt : r.timestamp < wordCount
  key_eq : ∃ (c : ObjectClass) (n : Nat), n < (c.window p hour).size ∧ r.key = c.key n
  size_mem : min p.minSize p.maxSize ≤ r.size ∧ r.size ≤ max p.minSize p.maxSize
  ttl_mem : min p.minTtl p.maxTtl ≤ r.ttl ∧ r.ttl ≤ max p.minTtl p.maxTtl

/-- A request is drawn as it should be, unless a sum is no word. -/
theorem request_cases (hfits : p.Fits) (hobjects : 0 < p.objects) (start i : Nat)
    (source : Source) :
    (∃ r, (request p hour start i source).1 = .ok r ∧ Drawn p hour r) ∨
      ((request p hour start i source).1 = .error .addition ∧
        (wordCount ≤ start + offset p i ∨
          halfWordCount ≤
            ((pick p source).1.1.window p hour).base + (pick p source).1.2)) := by
  generalize hsize : within p.minSize p.maxSize (key p hour source).2 = size
  generalize httl : within p.minTtl p.maxTtl size.2 = ttl
  have hrequest : (request p hour start i source).1 = (do
      let key ← (key p hour source).1
      let timestamp ← addWords start (offset p i)
      return { timestamp, key, size := size.1, ttl := ttl.1 }) := by
    rw [← httl, ← hsize]
    rfl
  rw [hrequest]
  rcases key_cases hour hfits hobjects source with ⟨n, hn, hkey⟩ | ⟨hlarge, herror⟩
  · rw [hkey, addWords]
    split
    case isTrue htime =>
      refine Or.inl ⟨_, rfl, htime, ⟨_, n, hn, rfl⟩, ?_, ?_⟩
      · rw [← hsize]
        exact within_mem hfits.size_lt _
      · rw [← httl]
        exact within_mem hfits.ttl_lt _
    case isFalse htime => exact Or.inr ⟨rfl, Or.inl (Nat.le_of_not_lt htime)⟩
  · rw [herror]
    exact Or.inr ⟨rfl, Or.inr hlarge⟩

/-! ## Hours -/

/-- Requests are drawn as they should be up to the first sum that is no word. -/
theorem extend_cases (hfits : p.Fits) (hobjects : 0 < p.objects) (start : Nat) {h : Hour}
    (hdrawn : ∀ r ∈ h.requests, Drawn p hour r) (hgood : h.failed = false) (i n : Nat)
    (source : Source) :
    (∀ r ∈ (extend p hour start h i n source).requests, Drawn p hour r) ∧
      ((extend p hour start h i n source).failed = true →
        (∃ j < i + n, wordCount ≤ start + offset p j) ∨
          ∃ source', halfWordCount ≤
            ((pick p source').1.1.window p hour).base + (pick p source').1.2) := by
  induction n generalizing h i source with
  | zero =>
    refine ⟨hdrawn, fun hfailed => ?_⟩
    rw [extend, hgood] at hfailed
    cases hfailed
  | succ n ih =>
    rw [extend]
    cases hrequest : request p hour start i source with
    | mk result rest =>
      rcases request_cases hour hfits hobjects start i source with
        ⟨r, hr, hnew⟩ | ⟨herror, hlarge⟩
      · rw [hrequest] at hr
        cases hr
        have hmore : ∀ r' ∈ h.requests.push r, Drawn p hour r' := by
          intro r' hr'
          rcases Array.mem_push.mp hr' with hold | rfl
          · exact hdrawn r' hold
          · exact hnew
        rcases ih (h := { h with requests := h.requests.push r }) hmore hgood (i + 1) rest with
          ⟨hall, hfails⟩
        refine ⟨hall, fun hfailed => ?_⟩
        rcases hfails hfailed with ⟨j, hj, htime⟩ | hlarge
        · exact Or.inl ⟨j, by omega, htime⟩
        · exact Or.inr hlarge
      · rw [hrequest] at herror
        cases herror
        refine ⟨hdrawn, fun _ => ?_⟩
        rcases hlarge with htime | hlarge
        · exact Or.inl ⟨i, by omega, htime⟩
        · exact Or.inr ⟨source, hlarge⟩

/-- Every class that a request is for has objects, a regular rank is one of its class, and so is the
number of the object. This number is made of a sum of 32-bit words, which may leave their range for
classes near the top of it. The sum is in range for every rank of a class exactly if it is so for
base and size of the window, and always if the objects are at most half as many as the words. Then
ranks and objects stand for one another. An hour ends early only where a sum is no word. -/
theorem hour_objects (p : Profile) (hour : Nat) (hfits : p.Fits) (hobjects : 0 < p.objects) :
    p.popular + p.regular = p.objects ∧
      (∀ c : ObjectClass, (c.window p hour).base < halfWordCount ∧
        ((c.window p hour).Rotates ↔
          (c.window p hour).base + (c.window p hour).size ≤ halfWordCount)) ∧
      (p.objects ≤ 2147483648 → ∀ c : ObjectClass, (c.window p hour).Rotates) ∧
      (∀ source, let (c, rank) := (pick p source).1
        0 < (c.window p hour).size ∧ (c = .regular → rank < (c.window p hour).size) ∧
          ((∃ n < (c.window p hour).size, (key p hour source).1 = .ok (c.key n)) ∨
            (halfWordCount ≤ (c.window p hour).base + rank ∧
              (key p hour source).1 = .error .addition))) ∧
      ∀ start source, let h := generate p hour start source
        (∀ r ∈ h.requests, Drawn p hour r) ∧
          (h.failed = true →
            (∃ i < p.hourRequests, wordCount ≤ start + offset p i) ∨
              ∃ source', let (c, rank) := (pick p source').1
                halfWordCount ≤ (c.window p hour).base + rank) := by
  refine ⟨p.popular_add_regular, ?_, ?_, ?_, ?_⟩
  · intro c
    have hbase := c.base_le p hour
    have hsize := c.size_le p hour
    have hword := hfits.objects_lt
    have hlt : (c.window p hour).base < halfWordCount := by
      rw [halfWordCount] at hword ⊢
      omega
    exact ⟨hlt, Window.rotates_iff hlt⟩
  · intro hhalf c
    exact c.rotates_of_le p hour hhalf
  · intro source
    rcases pick_spec hour hfits hobjects source with ⟨hpos, hrank⟩
    exact ⟨hpos, hrank, key_cases hour hfits hobjects source⟩
  · intro start source
    have hcases := extend_cases hour hfits hobjects start (h := {}) (fun r hr => nomatch hr) rfl 0
      p.hourRequests source
    rw [Nat.zero_add] at hcases
    exact hcases

/-- With as many objects as there can be, base and size of the regular window just have a sum in
range at the sixth hour of its period, and no more at the seventh. -/
theorem hour_objects_edge :
    let p : Profile := { objects := 4294967295 }
    p.Fits ∧ 0 < p.objects ∧ p.popular + p.regular = 4294967295 ∧
      (Window.popular p 6).Rotates ∧ (Window.regular p 6).Rotates ∧
      ¬ (Window.regular p 7).Rotates := by
  intro p
  have hfits : p.Fits := ⟨by decide, by decide, by decide⟩
  have hobjects : 0 < p.objects := by decide
  rcases hour_objects p 6 hfits hobjects with ⟨hsum, hsixth, -⟩
  rcases hour_objects p 7 hfits hobjects with ⟨-, hseventh, -⟩
  have hpopular : (Window.popular p 6).Rotates := (hsixth .popular).2.mpr (by decide)
  have hregular : (Window.regular p 6).Rotates := (hsixth .regular).2.mpr (by decide)
  have hlarge : ¬ (Window.regular p 7).Rotates := mt (hseventh .regular).2.mp (by decide)
  exact ⟨hfits, hobjects, hsum, hpopular, hregular, hlarge⟩

/-- The greatest regular rank has no number as soon as the window has moved on by an hour. -/
theorem hour_objects_overflow :
    let p : Profile := { objects := 4294967295, popularObjects := 0 }
    let source : Source := { key := Vector.replicate 8 0, words := [0, 0, 4294967295] }
    p.Fits ∧ 0 < p.objects ∧ (pick p source).1 = (.regular, 4294967294) ∧
      4294967294 < p.regular ∧ (key p 1 source).1 = .error .addition ∧
      ¬ (Window.regular p 1).Rotates := by
  intro p source
  have hpick : (pick p source).1 = (.regular, 4294967294) := by decide +kernel
  have hkey : (key p 1 source).1 = .error .addition := by
    have hlarge : (Window.regular p 1).object? 4294967294 = .error .addition := if_neg (by decide)
    rw [key_eq, hpick]
    simp only [ObjectClass.window, hlarge, Except.map]
  refine ⟨⟨by decide, by decide, by decide⟩, by decide, hpick, by decide, hkey, ?_⟩
  exact mt (Window.rotates_iff (by decide)).mp (by decide)

end Hour

end CacheLab
