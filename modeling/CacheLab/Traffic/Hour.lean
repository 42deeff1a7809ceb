import CacheLab.Random
import CacheLab.Simulation.Request
import CacheLab.Traffic.Profile

/-!
# CacheLab.Traffic.Hour — the requests of an hour

The requests of an hour are spread evenly over its seconds. For each of them a
random source decides whether it is for a popular object, which rank this object
has, and the size and the time to live. Popular ranks are skewed: low ranks are
drawn much more often than high ones. Regular ranks are all equally likely.

The numbers of objects and the times are words; an hour ends early at the first
request for which one of them would be too large.
-/

namespace CacheLab

/-- The requests of an hour, up to the one that failed if any did. -/
structure Hour where
  requests : Array Request := #[]
  failed : Bool := false

namespace Hour

open CacheLab.Random (Source)

/-- The power of a fraction that a popular rank is drawn with. -/
def skew : Float := 3.0

/-- Draws the rank of a popular object among `n`. -/
def popularRank (n : Nat) : StateM Source Nat := do
  let fraction ← Source.unit
  return (Float.pow fraction skew * Float.ofNat n).toUInt32.toNat

/-- Draws the object of a request and answers its key. -/
def key (p : Profile) (hour : Nat) : StateM Source (Except Overflow String) := do
  if ← Source.chance p.popularity then
    let rank ← popularRank p.popular
    return ((Window.popular p hour).object? rank).map fun n => s!"popular_obj_{n}"
  else
    let rank ← Source.belowWord p.regular
    return ((Window.regular p hour).object? rank).map fun n => s!"regular_obj_{n}"

/-- Draws a number between two ends, whichever of them is less. -/
def within (a b : Nat) : StateM Source Nat := Source.betweenWords (min a b) (max a b)

/-- The seconds from the start of an hour to request `i`. -/
def offset (p : Profile) (i : Nat) : Nat :=
  (Float.ofNat i * (Float.ofNat Profile.hourSeconds / Float.ofNat p.hourRequests)).toUInt64.toNat

/-- Draws request `i` of an hour that begins at `start`. -/
def request (p : Profile) (hour start i : Nat) : StateM Source (Except Overflow Request) := do
  let key ← key p hour
  let size ← within p.minSize p.maxSize
  let ttl ← within p.minTtl p.maxTtl
  return do
    let key ← key
    let timestamp ← addWords start (offset p i)
    return { timestamp, key, size, ttl }

/-- Draws `n` requests, the first of them with number `i`, behind others. -/
def extend (p : Profile) (hour start : Nat) (h : Hour) (i : Nat) : Nat → Source → Hour
  | 0, _ => h
  | n + 1, source =>
    match request p hour start i source with
    | (.ok r, source) =>
      extend p hour start { h with requests := h.requests.push r } (i + 1) n source
    | (.error _, _) => { h with failed := true }

/-- Draws the requests of an hour that begins at `start`. -/
def generate (p : Profile) (hour start : Nat) (source : Source) : Hour :=
  extend p hour start {} 0 p.hourRequests source

end Hour

end CacheLab
