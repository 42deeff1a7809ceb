import CacheLab.Word

/-!
# CacheLab.Metrics.Counters — what every cache counts

`Counters` holds the nine counters that a cache keeps under any policy. The
events of a cache are the constructors of `Event`, and `Counters.record` says
what each of them adds. Misses are not counted by themselves: they are the
requests that were not hits.

The counters are words. `record` adds without a bound, which is exact for any
history that a cache can have; `record?` refuses an event that would leave the
range.
-/

namespace CacheLab

/-- What can happen to a cache that is worth counting. -/
inductive Event where
  | hit
  | miss
  | insertion
  | update
  | eviction
  | removal
  | clear
deriving DecidableEq, Repr

/-- The counters of a cache. -/
structure Counters where
  /-- Lookups that may touch the eviction order. -/
  requests : Nat := 0
  /-- Lookups that found their key. -/
  hits : Nat := 0
  /-- New keys. -/
  insertions : Nat := 0
  /-- Values that replaced another under the same key. -/
  updates : Nat := 0
  /-- Entries that the policy pushed out. -/
  evictions : Nat := 0
  /-- Entries that the caller took out. -/
  removals : Nat := 0
  /-- Times at which every entry was dropped. -/
  clears : Nat := 0
  /-- Entries held now. -/
  entries : Nat := 0
  /-- The greatest number of entries. -/
  capacity : Nat := 0
deriving DecidableEq, Repr

namespace Counters

/-- Counts one event. The number of entries does not go below zero. -/
def record (c : Counters) : Event → Counters
  | .hit => { c with requests := c.requests + 1, hits := c.hits + 1 }
  | .miss => { c with requests := c.requests + 1 }
  | .insertion => { c with insertions := c.insertions + 1, entries := c.entries + 1 }
  | .update => { c with updates := c.updates + 1 }
  | .eviction => { c with evictions := c.evictions + 1, entries := c.entries - 1 }
  | .removal => { c with removals := c.removals + 1, entries := c.entries - 1 }
  | .clear => { c with clears := c.clears + 1, entries := 0 }

/-- Whether every counter is a word. -/
def areWords (c : Counters) : Bool :=
  [c.requests, c.hits, c.insertions, c.updates, c.evictions, c.removals, c.clears, c.entries,
    c.capacity].all (· < wordCount)

/-- Counts one event, unless a counter would leave the range of words. -/
def record? (c : Counters) (e : Event) : Except Overflow Counters :=
  if (c.record e).areWords then .ok (c.record e) else .error .addition

/-- The lookups that did not find their key. -/
def misses? (c : Counters) : Except Overflow Nat := subWords c.requests c.hits

/-- The quotient of two counters, or zero where there is nothing to divide by. -/
def ratio (part whole : Nat) : Float :=
  if whole = 0 then 0.0 else Float.ofNat part / Float.ofNat whole

/-- The part of the lookups that found their key. -/
def hitRate (c : Counters) : Float := ratio c.hits c.requests

/-- The part of the lookups that did not find their key. -/
def missRate? (c : Counters) : Except Overflow Float :=
  if c.requests = 0 then .ok 0.0 else do return ratio (← c.misses?) c.requests

/-- How full the cache is. -/
def utilization (c : Counters) : Float := ratio c.entries c.capacity

end Counters

end CacheLab
