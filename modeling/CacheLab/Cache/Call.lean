import CacheLab.Cache

/-!
# CacheLab.Cache.Call — calls as data

A `Call` is one use of a cache and an `Answer` is what the caller sees of it.
`Cache.perform` makes one call and `Cache.run` makes a list of them, which is
how statements about all histories of a cache are phrased.
-/

namespace CacheLab

/-- One use of a cache. -/
inductive Call (κ ν : Type) where
  | put (key : κ) (value : ν)
  | get (key : κ)
  | modify (key : κ) (f : ν → ν)
  | remove (key : κ)
  | erase (key : κ)
  | pop
  | clear
  | contains (key : κ)
  | peek (key : κ)
  | victim
  | frequency (key : κ)

/-- What the caller sees of a call. -/
inductive Answer (κ ν : Type) where
  | entry (entry : Option (κ × ν))
  | value (value : Option ν)
  | flag (flag : Bool)
  | key (key : Option κ)
  | count (count : Option Nat)
  | done
deriving DecidableEq, Repr

namespace Cache

variable {κ ν : Type} [DecidableEq κ] [Hashable κ]

/-- Makes one call. -/
def perform (c : Cache κ ν) : Call κ ν → Answer κ ν × Cache κ ν
  | .put key value => let (entry, c) := c.put key value; (.entry entry, c)
  | .get key => let (value, c) := c.get key; (.value value, c)
  | .modify key f => let (value, c) := c.modify key f; (.value value, c)
  | .remove key => let (value, c) := c.remove key; (.value value, c)
  | .erase key => let (found, c) := c.erase key; (.flag found, c)
  | .pop => let (entry, c) := c.pop; (.entry entry, c)
  | .clear => (.done, c.clear)
  | .contains key => (.flag (c.contains key), c)
  | .peek key => (.value (c.peek? key), c)
  | .victim => (.key c.victim?, c)
  | .frequency key => (.count (c.frequency? key), c)

/-- Makes the calls one after another. -/
def run (c : Cache κ ν) : List (Call κ ν) → List (Answer κ ν) × Cache κ ν
  | [] => ([], c)
  | call :: calls =>
    let (answer, c) := c.perform call
    let (answers, c) := c.run calls
    (answer :: answers, c)

end Cache

end CacheLab
