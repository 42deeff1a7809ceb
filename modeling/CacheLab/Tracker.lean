import CacheLab.Policy
import CacheLab.Tracker.Recency
import CacheLab.Tracker.Arrival
import CacheLab.Tracker.Frequency

/-!
# CacheLab.Tracker — the eviction order of a cache

A tracker records order only: which keys are present and which one leaves
next. `Tracker` is the closed sum of the three kinds of order, one for each
`Policy`; a cache chooses one when it is made and keeps it.
-/

namespace CacheLab

/-- The eviction order under one of the policies. -/
inductive Tracker (κ : Type) [BEq κ] [Hashable κ] where
  | lru (order : Recency κ)
  | fifo (order : Arrival κ)
  | lfu (order : Frequency κ)

namespace Tracker

variable {κ : Type} [DecidableEq κ] [Hashable κ]

/-- The tracker of no keys under `policy`. -/
def new : Policy → Tracker κ
  | .lru => lru .empty
  | .fifo => fifo .empty
  | .lfu => lfu .empty

/-- The policy whose order is kept. -/
def policy : Tracker κ → Policy
  | lru _ => .lru
  | fifo _ => .fifo
  | lfu _ => .lfu

/-- The number of tracked keys. -/
def size : Tracker κ → Nat
  | lru t => t.size
  | fifo t => t.size
  | lfu t => t.size

/-- Whether `key` is tracked. -/
def contains (t : Tracker κ) (key : κ) : Bool :=
  match t with
  | lru t => t.contains key
  | fifo t => t.contains key
  | lfu t => t.contains key

/-- The tracked keys in the order in which their tracker lists them. -/
def keys : Tracker κ → List κ
  | lru t => t.keys
  | fifo t => t.keys
  | lfu t => t.keys

/-- The key that leaves next. -/
def victim? : Tracker κ → Option κ
  | lru t => t.victim?
  | fifo t => t.victim?
  | lfu t => t.victim?

/-- Starts to track `key`. -/
def insert (t : Tracker κ) (key : κ) : Tracker κ :=
  match t with
  | lru t => lru (t.insert key)
  | fifo t => fifo (t.insert key)
  | lfu t => lfu (t.insert key)

/-- Notes an access to `key`, where the policy cares for accesses. -/
def access (t : Tracker κ) (key : κ) : Tracker κ :=
  match t with
  | lru t => lru (t.access key)
  | fifo t => fifo t
  | lfu t => lfu (t.access key)

/-- Takes the victim out and answers it. -/
def evict : Tracker κ → Option κ × Tracker κ
  | lru t => let (key, t) := t.evict; (key, lru t)
  | fifo t => let (key, t) := t.evict; (key, fifo t)
  | lfu t => let (key, t) := t.evict; (key, lfu t)

/-- Takes `key` out and answers whether it was tracked. -/
def remove (t : Tracker κ) (key : κ) : Bool × Tracker κ :=
  match t with
  | lru t => let (found, t) := t.remove key; (found, lru t)
  | fifo t => let (found, t) := t.remove key; (found, fifo t)
  | lfu t => let (found, t) := t.remove key; (found, lfu t)

/-- Forgets every key. -/
def clear : Tracker κ → Tracker κ
  | lru t => lru t.clear
  | fifo t => fifo t.clear
  | lfu t => lfu t.clear

/-- The access count of `key`; only the order by frequency counts accesses. -/
def frequency? (t : Tracker κ) (key : κ) : Option Nat :=
  match t with
  | lfu t => t.frequency? key
  | lru _ | fifo _ => none

/-- The lowest access count. -/
def lowest? : Tracker κ → Option Nat
  | lfu t => t.lowest?
  | lru _ | fifo _ => none

/-- The highest access count. -/
def highest? : Tracker κ → Option Nat
  | lfu t => t.highest?
  | lru _ | fifo _ => none

/-- The number of distinct access counts. -/
def levels : Tracker κ → Nat
  | lfu t => t.levels
  | lru _ | fifo _ => 0

/-- The first disagreement between the order and its index. -/
def fault? : Tracker κ → Option Inconsistency
  | lru t => t.fault?
  | fifo t => t.fault?
  | lfu t => t.fault?

/-- How a tracker is shown: by its policy alone. -/
def describe (t : Tracker κ) : String := s!"Tracker(\"{t.policy.choice}\")"

/-- How the order itself is shown. -/
def describeOrder (t : Tracker κ) (showKey : κ → String) : String :=
  match t with
  | lru t => t.describe showKey
  | fifo t => t.describe showKey
  | lfu t => t.describe showKey

end Tracker

end CacheLab
