/-!
# CacheLab.Word — arithmetic on 64-bit words

Counters, sizes and times are 64-bit words. Their arithmetic is written on
natural numbers, and the operations of this module refuse a result that is not
a word: `addWords`, `subWords` and `mulWords` answer the sum, difference or
product, or the operation that left the range. In the same way `listBytes` and
`tableBytes` refuse a list and a hash table that no memory can hold.
-/

namespace CacheLab

/-- The number of 64-bit words: one more than the greatest of them. -/
def wordCount : Nat := 18446744073709551616

/-- The number of 32-bit words. -/
def halfWordCount : Nat := 4294967296

/-- The number of bytes. -/
def byteCount : Nat := 256

/-- The greatest number of bytes that a list or a table can take. -/
def memoryLimit : Nat := 9223372036854775807

/-- An operation whose result is out of range. -/
inductive Overflow where
  | addition
  | subtraction
  | multiplication
  /-- Making a list that takes too many bytes. -/
  | allocation
  /-- Making a hash table that takes too many bytes. -/
  | table
deriving DecidableEq, Repr

/-- The overflow in words. -/
def Overflow.message : Overflow → String
  | addition => "attempt to add with overflow"
  | subtraction => "attempt to subtract with overflow"
  | multiplication => "attempt to multiply with overflow"
  | allocation => "capacity overflow"
  | table => "Hash table capacity overflow"

/-- The sum of two words. -/
def addWords (a b : Nat) : Except Overflow Nat :=
  if a + b < wordCount then .ok (a + b) else .error .addition

/-- The difference of two words. -/
def subWords (a b : Nat) : Except Overflow Nat :=
  if b ≤ a then .ok (a - b) else .error .subtraction

/-- The product of two words. -/
def mulWords (a b : Nat) : Except Overflow Nat :=
  if a * b < wordCount then .ok (a * b) else .error .multiplication

/-- The number of bytes of a list of `count` items of `size` bytes. -/
def listBytes (count size : Nat) : Except Overflow Nat :=
  if count * size ≤ memoryLimit then .ok (count * size) else .error .allocation

/-- The number of buckets of a hash table for `count` entries: a power of two,
so that at most seven of eight buckets are taken. -/
def bucketCount (count : Nat) : Nat :=
  if count < 4 then 4
  else if count < 8 then 8
  else if count < 15 then 16
  else 1 <<< ((count * 8 / 7 - 1).log2 + 1)

/-- The number of bytes of a hash table for `count` entries of `size` bytes. A
bucket has room for an entry and one byte more, there are 16 bytes behind the
last bucket, and up to 15 bytes are lost to begin at a multiple of 16. -/
def tableBytes (count size : Nat) : Except Overflow Nat :=
  let bytes := bucketCount count * (size + 1) + 16
  if bytes + 15 ≤ memoryLimit then .ok bytes else .error .table

end CacheLab
