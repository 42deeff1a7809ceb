import CacheLab.Word

/-!
# CacheLab.Simulation.Request — requests of a trace

A trace is a list of requests for objects. Times are carried through; only key
and size matter to a replay.
-/

namespace CacheLab

/-- A request for one object. -/
structure Request where
  /-- Seconds since the epoch. -/
  timestamp : Nat
  /-- The name of the object. -/
  key : String
  /-- The size of the object in bytes. -/
  size : Nat
  /-- The time to live in seconds, zero for none. -/
  ttl : Nat
deriving DecidableEq, Repr

namespace Request

/-- The greatest size that a cache stores. -/
def sizeLimit : Nat := halfWordCount - 1

/-- What a cache stores for the object: its size, cut at `sizeLimit`. -/
def stored (r : Request) : Nat := min r.size sizeLimit

end Request

end CacheLab
