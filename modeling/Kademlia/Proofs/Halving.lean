import Kademlia.Proofs.Partition

/-!
# Cutting an interval of keys in two

The keys are the numbers below `2 ^ 160`, each of them once, and their order, midpoint and successor are those of the numbers. So the
midpoint of two different keys lies below the greater one and has a successor, and an interval of more than one key is cut behind its
midpoint into two intervals that are not empty and between which no key is lost or held twice (`Octets.Pieces`).
-/

namespace Kademlia

namespace Octets

variable {n : Nat} {a b key : Octets n}

/-! ## The numbers that fit -/

/-- Each number that fits is written in exactly one way. -/
theorem existsUnique_toNat_eq {k : Nat} (h : k < 256 ^ n) : ∃! a : Octets n, a.toNat = k := by
  refine ⟨ofNat n k, toNat_ofNat h, ?_⟩
  rintro a rfl
  exact (ofNat_toNat a).symm

/-- Only the largest number has no successor. -/
theorem succ?_eq_none_iff_eq_highest : a.succ? = none ↔ a = highest n := by
  have hmax := toNat_highest (n := n)
  rw [succ?_eq_none_iff, ← toNat_eq_iff]
  omega

/-- No number lies between another and its successor. -/
theorem le_iff_lt_of_succ? {next : Octets n} (h : a.succ? = some next) : next ≤ key ↔ a < key := by
  rw [le_iff, lt_iff, succ?_eq_some_iff.1 h]
  exact Nat.succ_le_iff

/-- A number that is not the largest has a successor. -/
theorem exists_succ?_of_lt (h : a < b) : ∃ next, a.succ? = some next := by
  cases hnext : a.succ? with
  | some next => exact ⟨next, rfl⟩
  | none =>
    rw [succ?_eq_none_iff] at hnext
    have hb := b.toNat_lt
    rw [lt_iff] at h
    omega

/-! ## The midpoint -/

/-- The midpoint is not below the lower end. -/
theorem le_midpoint (h : a ≤ b) : a ≤ a.midpoint b := by
  rw [le_iff] at h
  rw [le_iff, toNat_midpoint]
  omega

/-- The midpoint of two different ends is below the upper one. -/
theorem midpoint_lt (h : a < b) : a.midpoint b < b := by
  rw [lt_iff] at h
  rw [lt_iff, toNat_midpoint]
  omega

/-! ## Intervals -/

/-- The interval from `min` to `mid` and that from `next` to `max`, ends included, divide the interval from `min` to `max` among
them. -/
structure Pieces (min mid next max : Octets n) : Prop where
  lower_nonempty : min ≤ mid
  upper_nonempty : next ≤ max
  covers : ∀ key, min ≤ key ∧ key ≤ max ↔ (min ≤ key ∧ key ≤ mid) ∨ (next ≤ key ∧ key ≤ max)
  disjoint : ∀ key, ¬((min ≤ key ∧ key ≤ mid) ∧ (next ≤ key ∧ key ≤ max))

/-- An interval may be cut behind each of its keys but the last. -/
theorem pieces_of_succ? {min mid next max : Octets n} (hmin : min ≤ mid) (hmax : mid < max) (hnext : mid.succ? = some next) :
    Pieces min mid next max where
  lower_nonempty := hmin
  upper_nonempty := (le_iff_lt_of_succ? hnext).2 hmax
  covers key := by
    rw [le_iff_lt_of_succ? hnext]
    simp only [le_iff, lt_iff] at *
    omega
  disjoint key := by
    rw [le_iff_lt_of_succ? hnext]
    simp only [le_iff, lt_iff]
    omega

/-- An interval of more than one key has two pieces, one to its midpoint and one from the next key on. -/
theorem exists_pieces (h : a < b) : ∃ next, (a.midpoint b).succ? = some next ∧ Pieces a (a.midpoint b) next b := by
  have hle : a ≤ b := le_iff.2 (Nat.le_of_lt (lt_iff.1 h))
  obtain ⟨next, hnext⟩ := exists_succ?_of_lt (midpoint_lt h)
  exact ⟨next, hnext, pieces_of_succ? (le_midpoint hle) (midpoint_lt h) hnext⟩

end Octets

namespace Key

/-- The keys are the numbers below `2 ^ 160`, each of them once, and are ordered like these. The midpoint is half the sum rounded
down, even if the sum has one bit more than a key; the successor is the number plus one, and there is none of the largest key only.
Therefore the midpoint of an interval with two ends has a successor, and cuts the interval into two that are not empty, have no key in
common and hold all its keys. -/
theorem arithmetic (a b : Key) :
    a.toNat < 2 ^ bits ∧
      (∀ k < 2 ^ bits, ∃! key : Key, key.toNat = k) ∧
      compare a b = compare a.toNat b.toNat ∧
      (a.midpoint b).toNat = (a.toNat + b.toNat) / 2 ∧
      (∀ next, a.succ? = some next ↔ next.toNat = a.toNat + 1) ∧
      (a.succ? = none ↔ a = highest) ∧
      (a < b → ∃ next, (a.midpoint b).succ? = some next ∧ Octets.Pieces a (a.midpoint b) next b) := by
  rw [show 2 ^ bits = 256 ^ 20 from keyCount_eq]
  exact ⟨a.toNat_lt, fun k hk => Octets.existsUnique_toNat_eq hk, Octets.compare_eq a b, Octets.toNat_midpoint a b,
    fun next => Octets.succ?_eq_some_iff, Octets.succ?_eq_none_iff_eq_highest, Octets.exists_pieces⟩

/-- The upper half of the key space: the sum of its ends needs 161 bits, and it is cut before the key that begins with two one bits. -/
theorem arithmetic_of_upper_half :
    let min : Key := ⟨0x80 :: List.replicate 19 0, rfl⟩
    let mid : Key := ⟨0xbf :: List.replicate 19 255, rfl⟩
    let next : Key := ⟨0xc0 :: List.replicate 19 0, rfl⟩
    (2 ^ bits - 1 < 2 ^ bits ∧ ∃! key : Key, key.toNat = 2 ^ bits - 1) ∧ min < highest ∧ min.midpoint highest = mid ∧
      mid.succ? = some next ∧ Octets.Pieces min mid next highest := by
  intro min mid next
  have hlt : min < highest := by decide
  have hmid : min.midpoint highest = mid := by decide
  have hnext : mid.succ? = some next := by decide
  obtain ⟨-, hunique, -, -, -, -, hpieces⟩ := arithmetic min highest
  obtain ⟨cut, hcut, hdivide⟩ := hpieces hlt
  rw [hmid] at hcut hdivide
  obtain rfl := Option.some.inj (hnext.symm.trans hcut)
  exact ⟨⟨by decide, hunique _ (by decide)⟩, hlt, hmid, hnext, hdivide⟩

end Key

end Kademlia
