import Kademlia.Key

/-!
# Buckets

A bucket is a closed interval of the key space with the number of nodes that fall into it and the time it was last touched. It
does not hold those nodes. A bucket is full at eight nodes.

Among buckets that do not overlap, `order` is the order of their lower ends, in which an interval of one key equals any interval
that contains this key: a search with it answers which bucket a key belongs to. `locate` answers the same of a key.
-/

namespace Kademlia

/-- The interval from `min` to `max`, both included; it is empty if they are the wrong way round. -/
structure Bucket where
  min : Key
  max : Key
  count : Nat
  changed : Int
deriving DecidableEq

namespace Bucket

/-- The number of nodes a bucket has room for. -/
def capacity : Nat := 8

/-- The largest count that is kept, that of 64 bits; counting stops there. -/
def countLimit : Nat := 0xffffffffffffffff

/-- The empty bucket of all keys. -/
def whole (now : Int) : Bucket := ⟨Key.lowest, Key.highest, 0, now⟩

/-- Whether there is no room left; more nodes than there is room for count as full too. -/
def isFull (b : Bucket) : Bool := capacity ≤ b.count

/-- Whether a key lies between the two ends. -/
def contains (b : Bucket) (key : Key) : Bool := b.min ≤ key && key ≤ b.max

/-- A bucket of one key. -/
def isSingleton (b : Bucket) : Bool := b.min = b.max

/-- How a bucket orders relative to a key: `eq` if it contains it. -/
def locate (b : Bucket) (key : Key) : Ordering :=
  if b.max < key then .lt
  else if key < b.min then .gt
  else .eq

/-- Locating a key and asking whether it is contained come to the same. -/
theorem locate_eq_iff {b : Bucket} {key : Key} : b.locate key = .eq ↔ b.contains key = true := by
  unfold locate contains
  by_cases hmax : b.max < key
  · have : ¬key ≤ b.max := fun h => Octets.not_lt_iff_le.mpr h hmax
    simp [hmax, this]
  · by_cases hmin : key < b.min
    · have : ¬b.min ≤ key := fun h => Octets.not_lt_iff_le.mpr h hmin
      simp [hmax, hmin, this]
    · simp [hmax, hmin, Octets.not_lt_iff_le.mp hmax, Octets.not_lt_iff_le.mp hmin]

/-- How two buckets order. -/
def order (a b : Bucket) : Ordering :=
  if b.isSingleton && a.contains b.min then .eq
  else if a.isSingleton && b.contains a.min then .eq
  else compare a.min b.min

/-- Moves the lower end. -/
def setMin (b : Bucket) (key : Key) (now : Int) : Bucket := { b with min := key, changed := now }

/-- Moves the upper end. -/
def setMax (b : Bucket) (key : Key) (now : Int) : Bucket := { b with max := key, changed := now }

/-- Sets the count, a negative one to zero. -/
def setCount (b : Bucket) (count : Int) (now : Int) : Bucket := { b with count := count.toNat, changed := now }

/-- Counts one node more, up to the limit. -/
def increment (b : Bucket) (now : Int) : Bucket := { b with count := Nat.min (b.count + 1) countLimit, changed := now }

/-- Counts one node less, down to none. -/
def decrement (b : Bucket) (now : Int) : Bucket := { b with count := b.count - 1, changed := now }

end Bucket

end Kademlia
