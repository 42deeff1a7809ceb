/-!
# CacheLab.Policy — eviction policies

The rule that picks the entry which leaves a full cache. Reads and updates
change the order under `lru` and `lfu` (`Policy.tracksAccess`).
-/

namespace CacheLab

/-- The rule that picks the entry which leaves when the cache is full. -/
inductive Policy where
  /-- The entry whose last access is oldest. -/
  | lru
  /-- The entry that was inserted first; reads and updates do not reorder. -/
  | fifo
  /-- The entry with the fewest accesses, of equals the least recently touched. -/
  | lfu
deriving DecidableEq, Repr

namespace Policy

/-- Every policy, in a fixed order. -/
def all : List Policy := [lru, fifo, lfu]

/-- The policy of a cache that asks for none. -/
def default : Policy := lru

instance : Inhabited Policy := ⟨default⟩

/-- The short name in capitals. -/
def name : Policy → String
  | lru => "LRU"
  | fifo => "FIFO"
  | lfu => "LFU"

/-- The name of the policy as a choice among the three. -/
def choice : Policy → String
  | lru => "Lru"
  | fifo => "Fifo"
  | lfu => "Lfu"

/-- Whether reads and updates change the eviction order. -/
def tracksAccess : Policy → Bool
  | fifo => false
  | lru | lfu => true

end Policy

end CacheLab
