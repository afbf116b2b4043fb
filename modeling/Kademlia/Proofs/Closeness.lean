import Kademlia.Metric
import Kademlia.Proofs.XorMetric

/-!
# Closeness to a target

Raw keys come as byte strings of any length. Two keys of the length of the target are compared by their distances from it, which is
the comparison of `Octets` (`isCloser_bytes`): the distances determine the keys, so of two different keys exactly one is closer. Keys
of another length are refused before any distance is compared, and two distances from one target always have one length.
-/

namespace Kademlia

namespace Metric

variable {target a b : Bytes}

/-! ## Pairs of one length and of two -/

theorem matched_of_eq (h : a.length = b.length) : matched a b = .ok () := if_pos h

/-- Lengths that differ are reported, the length of the first and that of the second. -/
theorem matched_of_ne (h : a.length ≠ b.length) : matched a b = .error ⟨a.length, b.length⟩ := if_neg h

/-- The distance between bytes of one length is their xor. -/
theorem xor_of_eq (h : a.length = b.length) : xor a b = .ok (Bytes.xor a b) := by
  unfold xor
  rw [matched_of_eq h]
  rfl

/-- There is no distance between bytes of different length, and both lengths are reported. -/
theorem xor_of_ne (h : a.length ≠ b.length) : xor a b = .error ⟨a.length, b.length⟩ := by
  unfold xor
  rw [matched_of_ne h]
  rfl

/-- Distances of one length are compared. -/
theorem compareDistance_of_eq (h : a.length = b.length) : compareDistance a b = .ok (compare a b) := by
  unfold compareDistance
  rw [matched_of_eq h]
  rfl

/-- A distance is as long as the target. -/
theorem length_of_xor {distance : Bytes} (h : xor target a = .ok distance) : distance.length = target.length := by
  by_cases hlen : target.length = a.length
  · rw [xor_of_eq hlen] at h
    obtain rfl := Except.ok.inj h
    rw [Bytes.length_xor, ← hlen, Nat.min_self]
  · rw [xor_of_ne hlen] at h
    cases h

/-- Distances from one target can be compared. -/
theorem compareDistance_of_xor {da db : Bytes} (ha : xor target a = .ok da) (hb : xor target b = .ok db) :
    compareDistance da db = .ok (compare da db) :=
  compareDistance_of_eq ((length_of_xor ha).trans (length_of_xor hb).symm)

/-! ## The closer one -/

/-- If the first has not the length of the target, both lengths are reported, whatever the second is. -/
theorem isCloser_of_ne (h : target.length ≠ a.length) : isCloser target a b = .error ⟨target.length, a.length⟩ := by
  unfold isCloser
  rw [xor_of_ne h]
  rfl

/-- If only the second has not the length of the target, its length is reported with that of the target. -/
theorem isCloser_of_eq_of_ne (ha : target.length = a.length) (hb : target.length ≠ b.length) :
    isCloser target a b = .error ⟨target.length, b.length⟩ := by
  unfold isCloser
  rw [xor_of_eq ha, xor_of_ne hb]
  rfl

/-- Among bytes of one length the answer compares the two distances from the target. -/
theorem isCloser_of_eq (ha : target.length = a.length) (hb : target.length = b.length) :
    isCloser target a b = .ok (compare (Bytes.xor target a) (Bytes.xor target b) == .lt) := by
  have hcompare := compareDistance_of_xor (xor_of_eq ha) (xor_of_eq hb)
  simp only [isCloser, xor_of_eq ha, xor_of_eq hb, bind, Except.bind, hcompare]
  rfl

/-- There is an answer unless a key has another length than the target, and then the first key is complained about first. -/
theorem isCloser_eq_error_iff {e : LengthMismatch} :
    isCloser target a b = .error e ↔
      (a.length ≠ target.length ∧ e = ⟨target.length, a.length⟩) ∨
        (a.length = target.length ∧ b.length ≠ target.length ∧ e = ⟨target.length, b.length⟩) := by
  by_cases ha : target.length = a.length
  · by_cases hb : target.length = b.length
    · simp [isCloser_of_eq ha hb, ← ha, ← hb]
    · simp [isCloser_of_eq_of_ne ha hb, ← ha, Ne.symm hb, eq_comm]
  · simp [isCloser_of_ne ha, Ne.symm ha, eq_comm]

/-- Keys as long as the target are compared by their distances from it. -/
theorem isCloser_bytes {n : Nat} (target a b : Octets n) :
    isCloser target.bytes a.bytes b.bytes = .ok (decide (target.distance a < target.distance b)) := by
  rw [isCloser_of_eq (target.length_bytes.trans a.length_bytes.symm) (target.length_bytes.trans b.length_bytes.symm),
    Bool.beq_eq_decide_eq]
  rfl

/-- The first key is strictly closer to the target than the second. -/
def Closer (target a b : Bytes) : Prop := isCloser target a b = .ok true

/-- Being closer is to have the smaller distance, taken as a number. -/
theorem closer_iff {target : Bytes} {a b : Octets target.length} :
    Closer target a.bytes b.bytes ↔ (Octets.distance ⟨target, rfl⟩ a).toNat < (Octets.distance ⟨target, rfl⟩ b).toNat := by
  -- the target is a key of its own length
  have hcloser := isCloser_bytes ⟨target, rfl⟩ a b
  unfold Closer
  rw [hcloser, Except.ok.injEq, decide_eq_true_eq, Octets.lt_iff]

/-- Among the keys as long as a target, whatever its length, being closer to it is a strict total order. The comparison answers for
these keys and refuses all others: it names the lengths of the target and of the first key that has another one, and the comparison of
the two distances inside it always comes about. For keys of the table it is the comparison of their distances as keys. -/
theorem closer_order (target : Bytes) :
    (∀ a : Octets target.length, ¬Closer target a.bytes a.bytes) ∧
      (∀ a b c : Octets target.length, Closer target a.bytes b.bytes → Closer target b.bytes c.bytes →
        Closer target a.bytes c.bytes) ∧
      (∀ a b : Octets target.length, a ≠ b → Xor (Closer target a.bytes b.bytes) (Closer target b.bytes a.bytes)) ∧
      (∀ a b e, isCloser target a b = .error e ↔
        (a.length ≠ target.length ∧ e = ⟨target.length, a.length⟩) ∨
          (a.length = target.length ∧ b.length ≠ target.length ∧ e = ⟨target.length, b.length⟩)) ∧
      (∀ a b da db, xor target a = .ok da → xor target b = .ok db → compareDistance da db = .ok (compare da db)) ∧
      ∀ key a b : Key, isCloser key.bytes a.bytes b.bytes = .ok (decide (key.distance a < key.distance b)) := by
  refine ⟨fun a => ?_, fun a b c hab hbc => ?_, fun a b hne => ?_, fun a b e => isCloser_eq_error_iff,
    fun a b da db ha hb => compareDistance_of_xor ha hb, isCloser_bytes⟩
  · rw [closer_iff]
    exact Nat.lt_irrefl _
  · rw [closer_iff] at *
    exact Nat.lt_trans hab hbc
  · rw [closer_iff, closer_iff]
    rcases Nat.lt_or_gt_of_ne fun heq => hne (Octets.toNat_distance_right_inj.1 heq) with h | h
    · exact Or.inl ⟨h, Nat.lt_asymm h⟩
    · exact Or.inr ⟨h, Nat.lt_asymm h⟩

/-- Three keys of two bytes at the distances `7fff`, `8000` and `ff00`. -/
theorem closer_order_of_high_bit :
    let target : Bytes := [0x12, 0x34]
    let near : Octets 2 := ⟨[0x6d, 0xcb], rfl⟩
    let middle : Octets 2 := ⟨[0x92, 0x34], rfl⟩
    let far : Octets 2 := ⟨[0xed, 0x34], rfl⟩
    (Closer target near.bytes middle.bytes ∧ Closer target middle.bytes far.bytes ∧ Closer target near.bytes far.bytes) ∧
      (near ≠ middle ∧ Xor (Closer target near.bytes middle.bytes) (Closer target middle.bytes near.bytes)) ∧
      xor target near.bytes = .ok [0x7f, 0xff] ∧ xor target middle.bytes = .ok [0x80, 0] ∧
      compareDistance [0x7f, 0xff] [0x80, 0] = .ok .lt := by
  intro target near middle far
  obtain ⟨-, htrans, hne, -, hinner, -⟩ := closer_order target
  have hnear : Closer target near.bytes middle.bytes := by
    unfold Closer
    decide
  have hmiddle : Closer target middle.bytes far.bytes := by
    unfold Closer
    decide
  have hdiffer : near ≠ middle := by decide
  have hda : xor target near.bytes = .ok [0x7f, 0xff] := by decide
  have hdb : xor target middle.bytes = .ok [0x80, 0] := by decide
  exact ⟨⟨hnear, hmiddle, htrans near middle far hnear hmiddle⟩, ⟨hdiffer, hne near middle hdiffer⟩, hda, hdb,
    hinner _ _ _ _ hda hdb⟩

end Metric

end Kademlia
