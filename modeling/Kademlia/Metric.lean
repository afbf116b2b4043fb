import Kademlia.Bytes

/-!
# The exclusive-or metric on raw keys

The routing table measures keys of one width with `Octets.distance`. These functions take keys of any width as they come from
outside, and refuse a pair of different lengths. A distance is compared most significant byte first.
-/

namespace Kademlia

/-- Two keys that cannot be measured against each other, with their lengths in bytes. -/
structure LengthMismatch where
  left : Nat
  right : Nat
deriving DecidableEq, Repr

/-- The wording of the refusal. -/
def LengthMismatch.message (e : LengthMismatch) : String :=
  s!"keys of different length: {e.left} and {e.right} bytes"

namespace Metric

/-- Two keys of one length, or the refusal of the pair. -/
def matched (a b : Bytes) : Except LengthMismatch Unit :=
  if a.length = b.length then .ok () else .error ⟨a.length, b.length⟩

/-- The distance between two keys. -/
def xor (a b : Bytes) : Except LengthMismatch Bytes := do
  matched a b
  return Bytes.xor a b

/-- How two distances compare as unsigned numbers. -/
def compareDistance (a b : Bytes) : Except LengthMismatch Ordering := do
  matched a b
  return compare a b

/-- Whether `a` is strictly closer to `target` than `b`. -/
def isCloser (target a b : Bytes) : Except LengthMismatch Bool := do
  let da ← xor target a
  let db ← xor target b
  return (← compareDistance da db) == .lt

end Metric

end Kademlia
