import Kademlia.Key
import Mathlib.Data.Nat.ModEq
import Mathlib.Tactic.Ring

/-!
# Keys as numbers

A byte string of a fixed length is the number that it writes: the order, the exclusive or, the midpoint and the successor of byte
strings are those of the numbers. With these statements a question about keys becomes one about natural numbers, which is how the
rest of the theory asks it.
-/

namespace Kademlia

/-! ## Byte strings -/

namespace Bytes

/-- The bytes before the ones read so far weigh as much as their place says. -/
theorem foldl_eq (bs : Bytes) (n : Nat) :
    bs.foldl (fun n b => 256 * n + b.toNat) n = n * 256 ^ bs.length + toNat bs := by
  induction bs generalizing n with
  | nil => simp [toNat]
  | cons b bs ih =>
    unfold toNat
    rw [List.foldl_cons, List.foldl_cons, ih, ih (256 * 0 + b.toNat), List.length_cons, Nat.pow_succ']
    simp only [Nat.add_mul, Nat.mul_comm 256 n, Nat.mul_assoc]
    omega

@[simp] theorem toNat_nil : toNat [] = 0 := rfl

/-- The first byte has the largest weight. -/
theorem toNat_cons (b : UInt8) (bs : Bytes) : toNat (b :: bs) = b.toNat * 256 ^ bs.length + toNat bs := by
  exact (foldl_eq bs (256 * 0 + b.toNat)).trans (by rw [Nat.mul_zero, Nat.zero_add])

/-- So many bytes stand for a number below so many powers of 256. -/
theorem toNat_lt (bs : Bytes) : toNat bs < 256 ^ bs.length := by
  induction bs with
  | nil => simp
  | cons b bs ih =>
    have hb : b.toNat ≤ 255 := by have := b.toNat_lt; omega
    have hmul := Nat.mul_le_mul_right (256 ^ bs.length) hb
    rw [toNat_cons, List.length_cons, Nat.pow_succ']
    omega

/-- The first byte that differs decides between the numbers too. -/
theorem compare_eq (as bs : Bytes) (h : as.length = bs.length) : compare as bs = compare (toNat as) (toNat bs) := by
  induction as generalizing bs with
  | nil =>
    cases bs with
    | nil => rfl
    | cons b bs => simp at h
  | cons a as ih =>
    cases bs with
    | nil => simp at h
    | cons b bs =>
      simp only [List.length_cons, Nat.add_right_cancel_iff] at h
      have ha := toNat_lt as
      have hb := toNat_lt bs
      rw [List.compare_cons_cons, ih bs h, toNat_cons, toNat_cons, h]
      rw [h] at ha
      rcases Nat.lt_trichotomy a.toNat b.toNat with hab | hab | hab
      · have hmul := Nat.mul_le_mul_right (256 ^ bs.length) (Nat.succ_le_of_lt hab)
        rw [Nat.succ_mul] at hmul
        rw [show compare a b = .lt from Std.compare_eq_lt.2 (UInt8.lt_iff_toNat_lt.2 hab)]
        exact (Nat.compare_eq_lt.2 (by omega)).symm
      · rw [UInt8.toNat_inj.1 hab, Std.ReflOrd.compare_self, Ordering.eq_then]
        simp only [compare, compareOfLessAndEq, Nat.add_lt_add_iff_left, Nat.add_left_cancel_iff]
      · have hmul := Nat.mul_le_mul_right (256 ^ bs.length) (Nat.succ_le_of_lt hab)
        rw [Nat.succ_mul] at hmul
        rw [show compare a b = .gt from Std.compare_eq_gt.2 (UInt8.lt_iff_toNat_lt.2 hab)]
        exact (Nat.compare_eq_gt.2 (by omega)).symm

/-- Byte strings of one length that write the same number are equal. -/
theorem toNat_inj {as bs : Bytes} (h : as.length = bs.length) (hn : toNat as = toNat bs) : as = bs := by
  apply Std.LawfulEqOrd.eq_of_compare
  rw [compare_eq as bs h, hn]
  exact Nat.compare_eq_eq.2 rfl

/-- The number of two runs of bytes put together is that of the first, shifted, plus that of the second. -/
theorem toNat_append (as bs : Bytes) : toNat (as ++ bs) = toNat as * 256 ^ bs.length + toNat bs := by
  unfold toNat
  rw [List.foldl_append, foldl_eq]
  rfl

/-- A number survives being written, apart from what does not fit. -/
theorem toNat_ofNat (n k : Nat) : toNat (ofNat n k) = k % 256 ^ n := by
  induction n generalizing k with
  | zero => simp [ofNat, Nat.mod_one]
  | succ n ih =>
    rw [ofNat, toNat_append, ih, toNat_cons, Nat.pow_succ' (n := n)]
    have hmod := Nat.mod_mul (a := 256) (b := 256 ^ n) (x := k)
    rw [hmod]
    simp only [List.length_cons, List.length_nil, toNat_nil, Nat.pow_zero, UInt8.toNat_ofNat', Nat.mul_one, Nat.add_zero,
      Nat.zero_add, Nat.pow_one, Nat.reducePow]
    omega

/-- The number of some bytes, written in as many bytes, gives the same bytes again. -/
theorem ofNat_toNat (bs : Bytes) : ofNat bs.length (toNat bs) = bs := by
  apply toNat_inj (length_ofNat _ _)
  rw [toNat_ofNat, Nat.mod_eq_of_lt (toNat_lt bs)]

theorem toNat_replicate_zero (n : Nat) : toNat (List.replicate n 0) = 0 := by
  induction n with
  | zero => rfl
  | succ n ih => rw [List.replicate_succ, toNat_cons, ih]; simp

/-- Bytes that are all 255 stand for the largest number of their length. -/
theorem toNat_replicate_max (n : Nat) : toNat (List.replicate n 255) + 1 = 256 ^ n := by
  induction n with
  | zero => rfl
  | succ n ih =>
    rw [List.replicate_succ, toNat_cons, List.length_replicate, Nat.pow_succ', Nat.add_assoc, ih]
    simp only [UInt8.reduceToNat]
    omega

/-- The long addition is the addition of the numbers; its carry is the bit that does not fit. -/
theorem toNat_addCarry (as bs : Bytes) (h : as.length = bs.length) :
    (addCarry as bs).1 * 256 ^ bs.length + toNat (addCarry as bs).2 = toNat as + toNat bs ∧ (addCarry as bs).1 ≤ 1 := by
  induction as generalizing bs with
  | nil =>
    cases bs with
    | nil => simp [addCarry]
    | cons b bs => simp at h
  | cons a as ih =>
    cases bs with
    | nil => simp at h
    | cons b bs =>
      simp only [List.length_cons, Nat.add_right_cancel_iff] at h
      obtain ⟨hsum, hcarry⟩ := ih bs h
      have ha := a.toNat_lt
      have hb := b.toNat_lt
      have hlen : (addCarry as bs).2.length = bs.length := by rw [length_addCarry, h, Nat.min_self]
      simp only [addCarry, toNat_cons, List.length_cons, hlen, h, UInt8.toNat_ofNat', Nat.pow_succ', Nat.reducePow]
      generalize (addCarry as bs).1 = carry at *
      generalize toNat (addCarry as bs).2 = rest at *
      refine ⟨?_, by omega⟩
      have hdigit := Nat.div_add_mod (a.toNat + b.toNat + carry) 256
      calc (a.toNat + b.toNat + carry) / 256 * (256 * 256 ^ bs.length) +
            ((a.toNat + b.toNat + carry) % 256 * 256 ^ bs.length + rest)
          = (256 * ((a.toNat + b.toNat + carry) / 256) + (a.toNat + b.toNat + carry) % 256) * 256 ^ bs.length + rest := by
            ring
        _ = (a.toNat + b.toNat) * 256 ^ bs.length + (carry * 256 ^ bs.length + rest) := by rw [hdigit]; ring
        _ = _ := by rw [hsum]; ring

/-- The long halving is the halving of the number that starts with the remainder. -/
theorem toNat_halve (r : Nat) (bs : Bytes) (hr : r ≤ 1) : toNat (halve r bs) = (r * 256 ^ bs.length + toNat bs) / 2 := by
  induction bs generalizing r with
  | nil => simp [halve]; omega
  | cons b bs ih =>
    have hb := b.toNat_lt
    have hdigit : (256 * r + b.toNat) / 2 % 2 ^ 8 = (256 * r + b.toNat) / 2 := Nat.mod_eq_of_lt (by omega)
    rw [halve, toNat_cons, ih (b.toNat % 2) (by omega), length_halve, toNat_cons, UInt8.toNat_ofNat', hdigit,
      List.length_cons, Nat.pow_succ']
    obtain ⟨q, hq⟩ : ∃ q, (256 * r + b.toNat) / 2 = q := ⟨_, rfl⟩
    have hbits : r * 256 + b.toNat = 2 * q + b.toNat % 2 := by omega
    rw [hq]
    have hwhole : r * (256 * 256 ^ bs.length) + (b.toNat * 256 ^ bs.length + toNat bs) =
        2 * (q * 256 ^ bs.length) + (b.toNat % 2 * 256 ^ bs.length + toNat bs) := by
      calc r * (256 * 256 ^ bs.length) + (b.toNat * 256 ^ bs.length + toNat bs)
          = (r * 256 + b.toNat) * 256 ^ bs.length + toNat bs := by ring
        _ = _ := by rw [hbits]; ring
    omega

/-- The successor adds one, and fails at the largest number of the length. -/
theorem toNat_succ? (bs : Bytes) :
    match succ? bs with
    | some next => toNat next = toNat bs + 1
    | none => toNat bs + 1 = 256 ^ bs.length := by
  induction bs with
  | nil => simp [succ?]
  | cons b bs ih =>
    unfold succ?
    cases hs : succ? bs with
    | some next =>
      rw [hs] at ih
      simp only at ih ⊢
      rw [toNat_cons, toNat_cons, length_of_succ? hs, ih]
      omega
    | none =>
      rw [hs] at ih
      simp only at ih ⊢
      by_cases hb : b = 255
      · rw [if_pos hb, hb, toNat_cons, List.length_cons, Nat.pow_succ']
        simp only [UInt8.reduceToNat]
        omega
      · have hlt : b.toNat < 255 := by
          have h1 := b.toNat_lt
          have h2 : b.toNat ≠ 255 := fun he => hb (UInt8.toNat_inj.1 he)
          omega
        have hnext : (b + 1).toNat = b.toNat + 1 := by
          rw [UInt8.toNat_add]
          simp only [UInt8.reduceToNat]
          omega
        rw [if_neg hb]
        simp only
        rw [toNat_cons, toNat_replicate_zero, List.length_replicate, hnext, toNat_cons, Nat.add_mul]
        omega

theorem div_weight {weight rest : Nat} (b : Nat) (h : rest < weight) : (b * weight + rest) / weight = b := by
  rw [Nat.mul_comm, Nat.mul_add_div (by omega), Nat.div_eq_of_lt h, Nat.add_zero]

theorem mod_weight {weight rest : Nat} (b : Nat) (h : rest < weight) : (b * weight + rest) % weight = rest := by
  rw [Nat.mul_comm, Nat.mul_add_mod, Nat.mod_eq_of_lt h]

/-- The bytewise exclusive or is that of the numbers. -/
theorem toNat_xor (as bs : Bytes) (h : as.length = bs.length) : toNat (xor as bs) = toNat as ^^^ toNat bs := by
  induction as generalizing bs with
  | nil =>
    cases bs with
    | nil => rfl
    | cons b bs => simp at h
  | cons a as ih =>
    cases bs with
    | nil => simp at h
    | cons b bs =>
      simp only [List.length_cons, Nat.add_right_cancel_iff] at h
      have hpow : (256 : Nat) ^ bs.length = 2 ^ (8 * bs.length) := by rw [Nat.pow_mul]
      have ha := toNat_lt as
      have hb := toNat_lt bs
      have hx : toNat as ^^^ toNat bs < 2 ^ (8 * bs.length) := Nat.xor_lt_two_pow (by rw [← hpow, ← h]; exact ha) (hpow ▸ hb)
      change toNat ((a ^^^ b) :: xor as bs) = _
      rw [toNat_cons, toNat_cons, toNat_cons, ih bs h, length_xor, h, Nat.min_self, hpow, UInt8.toNat_xor]
      rw [h, hpow] at ha
      rw [hpow] at hb
      -- both sides have the same quotient and the same remainder by the weight of the first byte
      apply Nat.ext_div_mod (n := 2 ^ (8 * bs.length))
      · rw [Nat.xor_div_two_pow, div_weight _ hx, div_weight _ ha, div_weight _ hb]
      · rw [Nat.xor_mod_two_pow, mod_weight _ hx, mod_weight _ ha, mod_weight _ hb]

end Bytes

/-! ## Octets and keys -/

namespace Octets

variable {n : Nat}

/-- A number of so many bytes is below so many powers of 256. -/
theorem toNat_lt (a : Octets n) : a.toNat < 256 ^ n := by
  have h := Bytes.toNat_lt a.bytes
  rwa [a.length_bytes] at h

/-- No two numbers of one length have the same value. -/
theorem toNat_injective {a b : Octets n} (h : a.toNat = b.toNat) : a = b :=
  ext (Bytes.toNat_inj (a.length_bytes.trans b.length_bytes.symm) h)

theorem toNat_eq_iff {a b : Octets n} : a.toNat = b.toNat ↔ a = b :=
  ⟨toNat_injective, fun h => h ▸ rfl⟩

/-- The order of octets is the order of their numbers. -/
theorem compare_eq (a b : Octets n) : compare a b = compare a.toNat b.toNat :=
  Bytes.compare_eq a.bytes b.bytes (a.length_bytes.trans b.length_bytes.symm)

/-- The order of numbers is that of their values. -/
theorem lt_iff {a b : Octets n} : a < b ↔ a.toNat < b.toNat := by
  rw [lt_def, compare_eq, Nat.compare_eq_lt]

/-- One number is at most another if its value is. -/
theorem le_iff {a b : Octets n} : a ≤ b ↔ a.toNat ≤ b.toNat := by
  rw [le_def, compare_eq, Nat.isLE_compare]

/-- The distance of two numbers is the xor of their values. -/
theorem toNat_distance (a b : Octets n) : (a.distance b).toNat = a.toNat ^^^ b.toNat :=
  Bytes.toNat_xor a.bytes b.bytes (a.length_bytes.trans b.length_bytes.symm)

/-- The midpoint of two numbers is half the sum of their values, rounded down, also where the sum has a bit more. -/
theorem toNat_midpoint (a b : Octets n) : (a.midpoint b).toNat = (a.toNat + b.toNat) / 2 := by
  have hlen := a.length_bytes.trans b.length_bytes.symm
  obtain ⟨hsum, hcarry⟩ := Bytes.toNat_addCarry a.bytes b.bytes hlen
  have h := Bytes.toNat_halve _ (Bytes.addCarry a.bytes b.bytes).2 hcarry
  rw [Bytes.length_addCarry, hlen, Nat.min_self, hsum] at h
  exact h

/-- There is a next number exactly when one more still fits, and it is that one. -/
theorem succ?_eq_some_iff {a b : Octets n} : a.succ? = some b ↔ b.toNat = a.toNat + 1 := by
  have hnum := Bytes.toNat_succ? a.bytes
  have hmap := map_bytes_succ? a
  cases h : a.succ? with
  | some next =>
    rw [h] at hmap
    rw [← hmap] at hnum
    have hnext : next.toNat = a.toNat + 1 := hnum
    rw [Option.some.injEq, ← hnext, eq_comm, toNat_eq_iff]
  | none =>
    rw [h] at hmap
    rw [← hmap, a.length_bytes] at hnum
    have hmax : a.toNat + 1 = 256 ^ n := hnum
    have hb := b.toNat_lt
    constructor
    · intro hc
      cases hc
    · intro hc
      omega

/-- Only the largest number has no successor. -/
theorem succ?_eq_none_iff {a : Octets n} : a.succ? = none ↔ a.toNat + 1 = 256 ^ n := by
  have hnum := Bytes.toNat_succ? a.bytes
  have hmap := map_bytes_succ? a
  cases h : a.succ? with
  | some next =>
    have hnext := succ?_eq_some_iff.1 h
    have hlt := next.toNat_lt
    constructor
    · intro hc
      cases hc
    · intro hc
      omega
  | none =>
    rw [h] at hmap
    rw [← hmap, a.length_bytes] at hnum
    exact ⟨fun _ => hnum, fun _ => rfl⟩

/-- A value that fits is that of the number made from it. -/
theorem toNat_ofNat {k : Nat} (h : k < 256 ^ n) : (ofNat n k).toNat = k :=
  (Bytes.toNat_ofNat n k).trans (Nat.mod_eq_of_lt h)

/-- A number is made again from its value. -/
theorem ofNat_toNat (a : Octets n) : ofNat n a.toNat = a :=
  toNat_injective (toNat_ofNat a.toNat_lt)

/-- The lowest number has the value zero. -/
theorem toNat_lowest : (lowest n).toNat = 0 := Bytes.toNat_replicate_zero n

/-- The highest number has the largest value. -/
theorem toNat_highest : (highest n).toNat + 1 = 256 ^ n := Bytes.toNat_replicate_max n

end Octets

end Kademlia
