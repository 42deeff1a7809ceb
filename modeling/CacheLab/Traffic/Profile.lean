import CacheLab.Word

/-!
# CacheLab.Traffic.Profile — the shape of synthetic traffic

A `Profile` says how many requests there are in a second, how many objects they
are for and which share of the requests goes to a small set of popular objects.
The other objects are regular.

The objects of a class are numbered. A request is for an object of a certain
*rank* in its class, and the `Window` of the class turns ranks into numbers: it
begins at another object every hour, and every twelfth hour at the same.
-/

namespace CacheLab

/-- What synthetic traffic looks like. -/
structure Profile where
  /-- Requests in a second. -/
  rate : Nat := 100
  hours : Nat := 24
  objects : Nat := 10000
  /-- The percentage of the requests that are for popular objects. -/
  popularTraffic : Nat := 80
  /-- The percentage of the objects that are popular. -/
  popularObjects : Nat := 20
  /-- One end of the range of sizes, in bytes. -/
  minSize : Nat := 1024
  /-- The other end of the range of sizes. -/
  maxSize : Nat := 1024 * 1024
  /-- One end of the range of times to live, in seconds. -/
  minTtl : Nat := 3600
  /-- The other end of the range of times to live. -/
  maxTtl : Nat := 86400
deriving DecidableEq, Repr

namespace Profile

/-- The number of popular objects. -/
def popular (p : Profile) : Nat := p.objects * min p.popularObjects 100 / 100

/-- The number of regular objects. -/
def regular (p : Profile) : Nat := p.objects - p.popular

/-- The number of seconds in an hour. -/
def hourSeconds : Nat := 3600

/-- The number of requests in an hour. -/
def hourRequests (p : Profile) : Nat := p.rate * hourSeconds

/-- The number of requests in all hours. -/
def requests? (p : Profile) : Except Overflow Nat := mulWords p.hourRequests p.hours

/-- How likely a request is for a popular object. -/
def popularity (p : Profile) : Float :=
  if p.popular = 0 then 0.0
  else if p.regular = 0 then 1.0
  else Float.ofNat (min p.popularTraffic 100) / 100.0

end Profile

/-- The objects of a class in some hour. -/
structure Window where
  /-- Where ranks begin to count. -/
  base : Nat
  /-- The number of objects of the class. -/
  size : Nat
deriving DecidableEq, Repr

namespace Window

/-- The number of hours after which a window stands where it stood. -/
def period : Nat := 12

/-- The popular objects in an hour. -/
def popular (p : Profile) (hour : Nat) : Window where
  base := hour % period * max (p.popular / 12) 1
  size := p.popular

/-- The regular objects in an hour. -/
def regular (p : Profile) (hour : Nat) : Window where
  base := hour % period * max (p.regular / 24) 1
  size := p.regular

/-- The number of the object of a rank, unless the sum of base and rank is no 32-bit word. -/
def object? (w : Window) (rank : Nat) : Except Overflow Nat :=
  if w.base + rank < halfWordCount then .ok ((w.base + rank) % w.size) else .error .addition

end Window

end CacheLab
