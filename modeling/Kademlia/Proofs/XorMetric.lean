import Kademlia.Proofs.Numeric
import Mathlib.Data.Nat.Bitwise

/-!
# The exclusive or as a metric

The distance of two strings of bytes is the exclusive or of their numbers, so what a metric asks for are facts about that: it is zero
only for equal numbers, does not care for the order, and is at most the sum, which is the triangle inequality once the way from `a` to
`c` is written as the way over `b`. Unlike other metrics it is unidirectional: from each point exactly one point lies at each distance.
A bit changed is a step of a power of two.
-/

namespace Kademlia

/-- Addition without carries gives no more than addition. -/
theorem xor_le_add (a b : Nat) : a ^^^ b ≤ a + b := by
  induction a using Nat.strongRecOn generalizing b with
  | _ a ih =>
    rcases Nat.eq_zero_or_pos a with rfl | hpos
    · rw [Nat.zero_xor, Nat.zero_add]
    · -- without its last digit the claim is the same one of smaller numbers, and the last digit is that of the sum
      have hhalf := ih (a / 2) (Nat.div_lt_self hpos (by decide)) (b / 2)
      have hdigit : (a ^^^ b) % 2 = (a + b) % 2 := Nat.xor_mod_two_eq
      rw [← Nat.xor_div_two] at hhalf
      omega

namespace Bytes

/-- The one bit of a byte at a place counted from its first one. -/
theorem toNat_bitMask {place : Nat} (h : place < 8) : (0x80 >>> UInt8.ofNat place : UInt8).toNat = 2 ^ (7 - place) := by
  have hplace : (UInt8.ofNat place).toNat % 8 = place := by
    rw [UInt8.toNat_ofNat']
    omega
  rw [UInt8.toNat_shiftRight, hplace, Nat.shiftRight_eq_div_pow, show (0x80 : UInt8).toNat = 2 ^ 7 from rfl,
    Nat.pow_div (by omega) (by decide)]

/-- The xor of bytes with themselves is zero. -/
theorem toNat_xor_self (bs : Bytes) : toNat (xor bs bs) = 0 := by
  rw [toNat_xor bs bs rfl, Nat.xor_self]

/-- A byte string and the same with one byte masked differ by the mask at the place of this byte. -/
theorem toNat_xor_modify (mask : UInt8) {bs : Bytes} {i : Nat} (h : i < bs.length) :
    toNat (xor bs (bs.modify i (· ^^^ mask))) = mask.toNat * 256 ^ (bs.length - 1 - i) := by
  induction bs generalizing i with
  | nil => simp at h
  | cons b bs ih =>
    cases i with
    | zero =>
      have hmask : b ^^^ (b ^^^ mask) = mask := by rw [← UInt8.xor_assoc, UInt8.xor_self, UInt8.zero_xor]
      change toNat ((b ^^^ (b ^^^ mask)) :: xor bs bs) = _
      rw [hmask, toNat_cons, toNat_xor_self, length_xor, Nat.min_self]
      rfl
    | succ i =>
      have hi : i < bs.length := Nat.lt_of_succ_lt_succ h
      change toNat ((b ^^^ b) :: xor bs (bs.modify i (· ^^^ mask))) = _
      rw [UInt8.xor_self, toNat_cons, ih hi, List.length_cons]
      simp only [UInt8.toNat_zero, Nat.zero_mul, Nat.zero_add]
      congr 2
      omega

end Bytes

namespace Octets

variable {n : Nat}

/-- Only a number itself is at distance zero. -/
theorem toNat_distance_eq_zero_iff {a b : Octets n} : (a.distance b).toNat = 0 ↔ a = b := by
  rw [toNat_distance, Nat.xor_eq_zero_iff, toNat_eq_iff]

/-- The distance is the same both ways. -/
theorem distance_comm (a b : Octets n) : a.distance b = b.distance a := by
  rw [← toNat_eq_iff, toNat_distance, toNat_distance, Nat.xor_comm]

/-- The way from `a` to `c` leads over every `b`. -/
theorem toNat_distance_le (a b c : Octets n) : (a.distance c).toNat ≤ (a.distance b).toNat + (b.distance c).toNat := by
  have hover : (a.distance c).toNat = (a.distance b).toNat ^^^ (b.distance c).toNat := by
    simp only [toNat_distance]
    rw [Nat.xor_assoc, Nat.xor_xor_cancel_left]
  rw [hover]
  exact xor_le_add _ _

/-- The distance and the one end determine the other end. -/
theorem distance_eq_iff {a b d : Octets n} : a.distance b = d ↔ b = a.distance d := by
  simp only [← toNat_eq_iff, toNat_distance]
  constructor
  · intro h
    rw [← h, Nat.xor_xor_cancel_left]
  · intro h
    rw [h, Nat.xor_xor_cancel_left]

/-- At each distance from a number there is one number, that of the distance to it. -/
theorem distance_distance (a b : Octets n) : a.distance (a.distance b) = b := (distance_eq_iff.1 rfl).symm

/-- What lies equally far from a point is one point. -/
theorem toNat_distance_right_inj {a b c : Octets n} : (a.distance b).toNat = (a.distance c).toNat ↔ b = c := by
  rw [toNat_eq_iff, distance_eq_iff, distance_distance]

/-- Changing a bit goes as far as the bit weighs. -/
theorem toNat_distance_toggle (a : Octets n) {bit : Nat} (h : bit < 8 * n) :
    (a.distance (a.toggle bit)).toNat = 2 ^ (8 * n - 1 - bit) := by
  have hbyte : bit / 8 < a.bytes.length := by
    rw [a.length_bytes]
    omega
  have hexponent : 7 - bit % 8 + 8 * (n - 1 - bit / 8) = 8 * n - 1 - bit := by omega
  calc (a.distance (a.toggle bit)).toNat
      = (0x80 >>> UInt8.ofNat (bit % 8) : UInt8).toNat * 256 ^ (a.bytes.length - 1 - bit / 8) :=
        Bytes.toNat_xor_modify _ hbyte
    _ = 2 ^ (7 - bit % 8) * 256 ^ (n - 1 - bit / 8) := by
        rw [Bytes.toNat_bitMask (Nat.mod_lt _ (by decide)), a.length_bytes]
    _ = 2 ^ (8 * n - 1 - bit) := by
        rw [show 256 = 2 ^ 8 from rfl, ← Nat.pow_mul, ← Nat.pow_add, hexponent]

end Octets

namespace Key

/-- A bit that is there is flipped. -/
theorem flip_of_lt (a : Key) {bit : Nat} (h : bit < bits) : a.flip bit = .ok (a.toggle bit) := if_pos h

/-- The distance of keys is the exclusive or of their numbers and makes the key space a metric space: it is zero for equal keys
only, symmetric, and satisfies the triangle inequality. From each key exactly one key lies at each distance. The key at the distance of a
power of two is the one with this bit changed, the bits being counted from the most significant one, and there are no other bits to
change. -/
theorem distance_metric (a b c : Key) :
    (a.distance b).toNat = a.toNat ^^^ b.toNat ∧
      ((a.distance b).toNat = 0 ↔ a = b) ∧
      a.distance b = b.distance a ∧
      (a.distance c).toNat ≤ (a.distance b).toNat + (b.distance c).toNat ∧
      (∀ d : Key, ∃! e, a.distance e = d) ∧
      (∀ bit < bits, ∃ flipped, a.flip bit = .ok flipped ∧
        ∀ e, (a.distance e).toNat = 2 ^ (bits - 1 - bit) ↔ e = flipped) ∧
      ∀ bit, bits ≤ bit → a.flip bit = .error (.noSuchBit bit) := by
  refine ⟨Octets.toNat_distance a b, Octets.toNat_distance_eq_zero_iff, Octets.distance_comm a b,
    Octets.toNat_distance_le a b c, fun d => ⟨a.distance d, ?_, ?_⟩, fun bit hbit => ⟨a.toggle bit, flip_of_lt a hbit, fun e => ?_⟩,
    fun bit hbit => if_neg (Nat.not_lt_of_le hbit)⟩
  · exact Octets.distance_eq_iff.2 rfl
  · intro e he
    exact Octets.distance_eq_iff.1 he
  · have hflipped : (a.distance (a.toggle bit)).toNat = 2 ^ (bits - 1 - bit) := Octets.toNat_distance_toggle a hbit
    rw [← hflipped, Octets.toNat_distance_right_inj]

/-- Of the largest key the bit with number 9 is the second one of the second byte, and weighs `2 ^ 150`. -/
theorem distance_metric_of_highest :
    let flipped : Key := ⟨255 :: 0xbf :: List.replicate 18 255, rfl⟩
    (9 < bits ∧ highest.flip 9 = .ok flipped ∧ ∀ e, (highest.distance e).toNat = 2 ^ 150 ↔ e = flipped) ∧
      bits ≤ 160 ∧ highest.flip 160 = .error (.noSuchBit 160) := by
  intro flipped
  obtain ⟨-, -, -, -, -, hflip, hnone⟩ := distance_metric highest highest highest
  have hbit : 9 < bits := by decide
  have hother : bits ≤ 160 := Nat.le_refl _
  obtain ⟨e, he, honly⟩ := hflip 9 hbit
  obtain rfl : e = flipped := Except.ok.inj (he.symm.trans (by decide))
  exact ⟨⟨hbit, he, honly⟩, hother, hnone 160 hother⟩

end Key

end Kademlia
