import Std.Data.TreeMap
import CacheLab.Policy
import CacheLab.Metrics.Counters
import CacheLab.Metrics.Levels

/-!
# CacheLab.Metrics — the metrics of a cache

The counters of a cache and, where accesses are counted, the spread of the
counts. `Metrics.report?` gives all of it as named numbers, always in the order
of the names.
-/

namespace CacheLab

/-- Named numbers in the order of their names. -/
abbrev Measures := Std.TreeMap String Float

/-- Adds the spread of the access counts and the mean number of promotions for each hit. -/
def Levels.report (l : Levels) (hits : Nat) (m : Measures) : Measures :=
  m.insertMany [
    ("min_frequency", Float.ofNat l.lowest),
    ("max_frequency", Float.ofNat l.highest),
    ("frequency_range", Float.ofNat l.range),
    ("total_frequency_increments", Float.ofNat l.increments),
    ("active_frequency_levels", Float.ofNat l.active),
    ("average_frequency_increment", Counters.ratio l.increments hits)]

/-- The counters and rates by name. The eviction rate is there only once a lookup was made. -/
def Counters.report? (c : Counters) : Except Overflow Measures := do
  let misses ← c.misses?
  let missRate ← c.missRate?
  let base : Measures := Std.TreeMap.ofList [
    ("cache_hits", Float.ofNat c.hits),
    ("cache_misses", Float.ofNat misses),
    ("capacity", Float.ofNat c.capacity),
    ("clears", Float.ofNat c.clears),
    ("entries", Float.ofNat c.entries),
    ("evictions", Float.ofNat c.evictions),
    ("insertions", Float.ofNat c.insertions),
    ("removals", Float.ofNat c.removals),
    ("requests", Float.ofNat c.requests),
    ("updates", Float.ofNat c.updates),
    ("hit_rate", c.hitRate),
    ("miss_rate", missRate),
    ("utilization", c.utilization)]
  if c.requests = 0 then
    return base
  else
    return base.insert "eviction_rate" (Counters.ratio c.evictions c.requests)

/-- The counters of a cache under `policy`, with the spread of the access
counts where the policy counts accesses. -/
structure Metrics where
  policy : Policy
  core : Counters
  levels : Option Levels
deriving DecidableEq, Repr

namespace Metrics

/-- Fresh counters for a cache of `capacity` entries. -/
def new (policy : Policy) (capacity : Nat) : Metrics where
  policy
  core := { capacity }
  levels := if policy = .lfu then some {} else none

/-- Counts one event. -/
def record (m : Metrics) (e : Event) : Metrics := { m with core := m.core.record e }

/-- Every metric by name. -/
def report? (m : Metrics) : Except Overflow Measures := do
  let base ← m.core.report?
  return m.levels.elim base fun levels => levels.report m.core.hits base

end Metrics

end CacheLab
