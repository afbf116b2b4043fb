import Kademlia.Bytes

/-!
# Numbers of a fixed count of bytes

`Octets n` is a string of exactly `n` bytes, read as an unsigned number with the most significant byte first: a key is
`Octets 20`, an internet address `Octets 4` or `Octets 16`. The arithmetic is that of byte strings, which keeps the length; the
order compares bytes from the first on, and is a lawful total order.
-/

namespace Kademlia

/-- A string of exactly `n` bytes. -/
structure Octets (n : Nat) where
  bytes : Bytes
  length_bytes : bytes.length = n
deriving DecidableEq

namespace Octets

@[ext] theorem ext {n : Nat} {a b : Octets n} (h : a.bytes = b.bytes) : a = b := by
  cases a; cases b; cases h; rfl

/-- The number that the bytes write. -/
def toNat {n : Nat} (a : Octets n) : Nat := Bytes.toNat a.bytes

/-- The number `k`, cut to `n` bytes. -/
def ofNat (n k : Nat) : Octets n := ⟨Bytes.ofNat n k, Bytes.length_ofNat n k⟩

/-- The byte string as `n` bytes, if it has that length. -/
def ofBytes? (n : Nat) (bs : Bytes) : Option (Octets n) :=
  if h : bs.length = n then some ⟨bs, h⟩ else none

/-- The bytes of a number make this number again. -/
theorem ofBytes?_bytes {n : Nat} (a : Octets n) : ofBytes? n a.bytes = some a := by
  simp [ofBytes?, a.length_bytes]

/-- Bytes make a number unless their length is wrong. -/
theorem ofBytes?_eq_none_iff {n : Nat} {bs : Bytes} : ofBytes? n bs = none ↔ bs.length ≠ n := by
  by_cases h : bs.length = n <;> simp [ofBytes?, h]

/-- One byte `n` times. -/
def fill (n : Nat) (b : UInt8) : Octets n := ⟨List.replicate n b, List.length_replicate⟩

/-- The smallest number, zero. -/
def lowest (n : Nat) : Octets n := fill n 0

/-- The largest number, `256 ^ n - 1`. -/
def highest (n : Nat) : Octets n := fill n 255

/-- Numbers are compared at the first byte that differs, which for strings of one length is the numeric order. -/
instance {n : Nat} : Ord (Octets n) := ⟨fun a b => compare a.bytes b.bytes⟩

instance {n : Nat} : LT (Octets n) := ltOfOrd
instance {n : Nat} : LE (Octets n) := leOfOrd
instance {n : Nat} : DecidableLT (Octets n) := fun a b => inferInstanceAs (Decidable (compare a b = .lt))
instance {n : Nat} : DecidableLE (Octets n) := fun a b => inferInstanceAs (Decidable ((compare a b).isLE = true))

/-- The exclusive or of two numbers, the distance of the Kademlia metric. -/
def distance {n : Nat} (a b : Octets n) : Octets n :=
  ⟨Bytes.xor a.bytes b.bytes, by simp [a.length_bytes, b.length_bytes]⟩

/-- Half the sum of two numbers, rounded down. The carry of the addition is the remainder that the halving starts with, so
nothing is lost when the sum needs one more bit. -/
def midpoint {n : Nat} (a b : Octets n) : Octets n :=
  let sum := Bytes.addCarry a.bytes b.bytes
  ⟨Bytes.halve sum.1 sum.2, by simp [sum, a.length_bytes, b.length_bytes]⟩

/-- The next number, if there is one of `n` bytes. -/
def succ? {n : Nat} (a : Octets n) : Option (Octets n) :=
  match h : Bytes.succ? a.bytes with
  | some next => some ⟨next, (Bytes.length_of_succ? h).trans a.length_bytes⟩
  | none => none

/-- The number with one bit changed, bit 0 being the most significant one of the first byte. -/
def toggle {n : Nat} (a : Octets n) (bit : Nat) : Octets n :=
  ⟨a.bytes.modify (bit / 8) (· ^^^ (0x80 >>> UInt8.ofNat (bit % 8))), by simp [a.length_bytes]⟩

/-- The successor is that of the bytes. -/
theorem map_bytes_succ? {n : Nat} (a : Octets n) : a.succ?.map Octets.bytes = Bytes.succ? a.bytes := by
  unfold succ?
  split
  · rename_i next h
    exact h.symm
  · rename_i h
    exact h.symm

theorem compare_def {n : Nat} (a b : Octets n) : compare a b = compare a.bytes b.bytes := rfl

theorem lt_def {n : Nat} {a b : Octets n} : a < b ↔ compare a b = .lt := Iff.rfl

theorem le_def {n : Nat} {a b : Octets n} : a ≤ b ↔ (compare a b).isLE = true := Iff.rfl

instance {n : Nat} : Std.TransOrd (Octets n) where
  eq_swap {a b} := Std.OrientedOrd.eq_swap (a := a.bytes) (b := b.bytes)
  isLE_trans {a b c} := Std.TransOrd.isLE_trans (a := a.bytes) (b := b.bytes) (c := c.bytes)

instance {n : Nat} : Std.LawfulEqOrd (Octets n) where
  compare_self {a} := Std.ReflOrd.compare_self (a := a.bytes)
  eq_of_compare {a b} h := ext (Std.LawfulEqOrd.eq_of_compare (a := a.bytes) (b := b.bytes) h)

/-- Of two numbers one is at most the other if it is not beyond it. -/
theorem not_lt_iff_le {n : Nat} {a b : Octets n} : ¬a < b ↔ b ≤ a := by
  rw [lt_def, le_def, Std.OrientedOrd.eq_swap (a := b)]
  cases compare a b <;> simp

end Octets

end Kademlia
