import CacheLab.Word
import CacheLab.Decimal.Fixed

/-!
# CacheLab.Latency — how long operations take

A `Sampler` takes in the latencies of one kind of operation, in nanoseconds. It
keeps their sum, number, least and greatest, and a *reservoir* of at most
`reservoirSize` of them for estimates of percentiles:

* `record` fills the reservoir; once it is full, the `n`-th latency replaces
  the sample at a random place below `n`, if the reservoir has that place, so
  that every latency is equally likely to stay;
* `merge` puts two reservoirs together and, if they are too many, keeps the
  first `reservoirSize` of a random order.

The random draws are arguments, so statements about a sampler hold for every
outcome of them. `Summary` is what a sampler reports in the end, and `Latencies`
pairs the summaries of lookups and insertions.
-/

namespace CacheLab

/-- The greatest number of samples that a sampler keeps. -/
def reservoirSize : Nat := 5000

/-- The latencies of one kind of operation. -/
structure Sampler where
  total : Nat := 0
  count : Nat := 0
  /-- The least latency; the greatest word as long as there is none. -/
  least : Nat := wordCount - 1
  greatest : Nat := 0
  samples : Array Nat := #[]
deriving DecidableEq, Repr

/-- Four percentiles of a set of latencies. -/
structure Percentiles where
  p50 : Nat
  p90 : Nat
  p99 : Nat
  p999 : Nat
deriving DecidableEq, Repr

/-- What is reported of one kind of operation. -/
structure Summary where
  total : Nat := 0
  count : Nat := 0
  least : Nat := 0
  greatest : Nat := 0
  percentiles : Option Percentiles := none
deriving DecidableEq, Repr

/-- Exchanges each place in turn with a place that `draws` picks from there to
the end. -/
def shuffle (draws : Nat → Nat) (samples : Array Nat) : Array Nat :=
  (List.range samples.size).foldl
    (fun samples i => samples.swapIfInBounds i (i + draws i % (samples.size - i))) samples

namespace Sampler

/-- The sampler that has taken in nothing. -/
def empty : Sampler := {}

/-- The reservoir after the `n`-th latency, where `draw` decides which sample
it replaces. -/
def sample (samples : Array Nat) (latency n draw : Nat) : Array Nat :=
  if samples.size < reservoirSize then
    samples.push latency
  else
    let place := draw % n
    if place < reservoirSize then samples.setIfInBounds place latency else samples

/-- Takes in one latency. -/
def record (s : Sampler) (latency draw : Nat) : Sampler where
  total := s.total + latency
  count := s.count + 1
  least := min s.least latency
  greatest := max s.greatest latency
  samples := sample s.samples latency (s.count + 1) draw

/-- The reservoir of two reservoirs together. -/
def pool (draws : Nat → Nat) (a b : Array Nat) : Array Nat :=
  let samples := a ++ b
  if reservoirSize < samples.size then (shuffle draws samples).take reservoirSize else samples

/-- Takes in everything that another sampler has taken in. -/
def merge (s other : Sampler) (draws : Nat → Nat) : Sampler where
  total := s.total + other.total
  count := s.count + other.count
  least := min s.least other.least
  greatest := max s.greatest other.greatest
  samples := pool draws s.samples other.samples

/-- Whether the sum and the number are words. -/
def areWords (s : Sampler) : Bool := s.total < wordCount && s.count < wordCount

/-- Takes in one latency, unless the sum or the number would leave the range of words. -/
def record? (s : Sampler) (latency draw : Nat) : Except Overflow Sampler :=
  let next := s.record latency draw
  if next.areWords then .ok next else .error .addition

/-- Merges two samplers, unless the sum or the number would leave the range of words. -/
def merge? (s other : Sampler) (draws : Nat → Nat) : Except Overflow Sampler :=
  let merged := s.merge other draws
  if merged.areWords then .ok merged else .error .addition

/-- The percentiles of the samples: in ascending order, the sample at the given
part of their number in thousandths, or the last one. -/
def percentiles? (s : Sampler) : Option Percentiles :=
  let sorted := (s.samples.toList.mergeSort (· ≤ ·)).toArray
  let place (perMille : Nat) : Nat := min (sorted.size * perMille / 1000) (sorted.size - 1)
  do
    let p50 ← sorted[place 500]?
    let p90 ← sorted[place 900]?
    let p99 ← sorted[place 990]?
    let p999 ← sorted[place 999]?
    return { p50, p90, p99, p999 }

/-- What the sampler reports. -/
def summary (s : Sampler) : Summary where
  total := s.total
  count := s.count
  least := if s.count = 0 then 0 else s.least
  greatest := s.greatest
  percentiles := s.percentiles?

end Sampler

/-! ## Rates -/

/-- The mean of `count` latencies with the sum `total`. -/
def meanLatency (total count : Nat) : Float :=
  if count = 0 then 0.0 else Float.ofNat total / Float.ofNat count

/-- The number of operations in a second, where `count` of them take `total` nanoseconds. -/
def operationRate (total count : Nat) : Float :=
  if total = 0 then 0.0 else Float.ofNat count * 1000000000.0 / Float.ofNat total

/-- Nanoseconds in seconds. -/
def inSeconds (total : Nat) : Float := Float.ofNat total / 1000000000.0

namespace Summary

/-- The mean latency. -/
def mean (s : Summary) : Float := meanLatency s.total s.count

/-- The number of operations in a second. -/
def rate (s : Summary) : Float := operationRate s.total s.count

/-- The sum of the latencies in seconds. -/
def seconds (s : Summary) : Float := inSeconds s.total

/-- The median, zero if there are no samples. -/
def median (s : Summary) : Nat := s.percentiles.elim 0 (·.p50)

/-- The 99th percentile, zero if there are no samples. -/
def p99 (s : Summary) : Nat := s.percentiles.elim 0 (·.p99)

end Summary

/-- The latencies of lookups and of insertions. -/
structure Latencies where
  gets : Summary := {}
  puts : Summary := {}
deriving DecidableEq, Repr

namespace Latencies

/-- The number of operations. -/
def count? (l : Latencies) : Except Overflow Nat := addWords l.gets.count l.puts.count

/-- The sum of all latencies. -/
def total? (l : Latencies) : Except Overflow Nat := addWords l.gets.total l.puts.total

/-- The mean latency of all operations. -/
def mean? (l : Latencies) : Except Overflow Float := do
  let count ← l.count?
  if count = 0 then return 0.0
  return meanLatency (← l.total?) count

/-- The number of operations in a second. -/
def rate? (l : Latencies) : Except Overflow Float := do
  let total ← l.total?
  if total = 0 then return 0.0
  return operationRate total (← l.count?)

/-- The sum of all latencies in seconds. -/
def seconds? (l : Latencies) : Except Overflow Float := return inSeconds (← l.total?)

/-- The line of a report about one kind of operation; none if it never happened. -/
def operationLine (name : String) (s : Summary) : List String :=
  let whole (x : Float) := Decimal.fixed 0 x false
  if s.count = 0 then []
  else
    [s!"    {name}:  {s.count} ops = {whole s.rate} ops/s | avg={whole s.mean}ns " ++
      s!"min={s.least} max={s.greatest} p50={s.median} p99={s.p99}"]

/-- The lines of a report about the latencies. -/
def lines? (l : Latencies) : Except Overflow (List String) := do
  let whole (x : Float) := Decimal.fixed 0 x false
  let count ← l.count?
  let seconds ← l.seconds?
  let rate ← l.rate?
  let mean ← l.mean?
  let head := s!"  Total ops: {count} in {Decimal.fixed 3 seconds false}s = " ++
    s!"{whole rate} ops/s (avg {whole mean}ns)"
  return head :: operationLine "GET" l.gets ++ operationLine "PUT" l.puts

end Latencies

end CacheLab
