import Kademlia.Proofs.NodeOrder
import Kademlia.Proofs.Partition
import Mathlib.Data.Nat.Bitwise
import Mathlib.Data.Nat.Size

/-!
# Blocks of keys with common leading bits

Two keys share as many leading bits as their distance has leading zeros. The keys that share all bits but the last `height` with
a given key form a block: an interval of `2 ^ height` keys that starts at a multiple of its length (`Bucket.IsBlock`). Halving a
block gives the two blocks of the next bit, so splitting buckets only ever makes blocks, and of two halves the one that does not
hold a key holds exactly the keys that part from it at this bit.
-/

namespace Kademlia

/-! ## Shared leading bits -/

/-- The number of zero bits before the first one bit; all of them for zero. -/
def Octets.leadingZeros {n : Nat} (a : Octets n) : Nat := 8 * n - a.toNat.size

/-- The number of leading bits in which two keys agree. -/
def Key.shared (a b : Key) : Nat := (a.distance b).leadingZeros

/-- A number has so many leading zeros if it fits into the bits behind them. -/
theorem Octets.sub_le_leadingZeros_iff {n height : Nat} {a : Octets n} (h : height ≤ 8 * n) :
    8 * n - height ≤ a.leadingZeros ↔ a.toNat < 2 ^ height := by
  have hsize : a.toNat.size ≤ 8 * n := by
    rw [Nat.size_le, Nat.pow_mul]
    exact a.toNat_lt
  rw [leadingZeros, ← Nat.size_le]
  omega

theorem Key.shared_le (a b : Key) : a.shared b ≤ Key.bits := Nat.sub_le _ _

/-- The distance of two keys is as long as the bits that they do not share. -/
theorem Key.sub_le_shared_iff_distance {a b : Key} {height : Nat} (h : height ≤ Key.bits) :
    Key.bits - height ≤ a.shared b ↔ (a.distance b).toNat < 2 ^ height :=
  Octets.sub_le_leadingZeros_iff (n := 20) h

/-- A distance is short when the keys agree after their last bits are cut off. -/
theorem Key.distance_lt_iff {a b : Key} {height : Nat} :
    (a.distance b).toNat < 2 ^ height ↔ a.toNat / 2 ^ height = b.toNat / 2 ^ height := by
  rw [Octets.toNat_distance, ← Nat.div_eq_zero_iff_lt (Nat.two_pow_pos height), Nat.xor_div_two_pow, Nat.xor_eq_zero_iff]

/-- Keys share all but their last `height` bits when they agree after these are cut off. -/
theorem Key.sub_le_shared_iff {a b : Key} {height : Nat} (h : height ≤ Key.bits) :
    Key.bits - height ≤ a.shared b ↔ a.toNat / 2 ^ height = b.toNat / 2 ^ height := by
  rw [Key.sub_le_shared_iff_distance h, Key.distance_lt_iff]

/-- Only a key itself shares all bits with it. -/
theorem Key.bits_le_shared_iff {a b : Key} : Key.bits ≤ a.shared b ↔ a = b := by
  have h := Key.sub_le_shared_iff (a := a) (b := b) (Nat.zero_le Key.bits)
  rw [Nat.sub_zero, Nat.pow_zero, Nat.div_one, Nat.div_one] at h
  rw [h]
  exact Octets.toNat_eq_iff

namespace Bucket

/-! ## Blocks -/

/-- A bucket that holds all keys with the same leading bits, whatever their last `height` bits. -/
def IsBlock (b : Bucket) (height : Nat) : Prop :=
  2 ^ height ∣ b.min.toNat ∧ b.max.toNat + 1 = b.min.toNat + 2 ^ height

/-- The bucket of all keys is a block in which every bit is free. -/
theorem isBlock_whole (now : Int) : (whole now).IsBlock Key.bits := by
  refine ⟨?_, ?_⟩
  · rw [show (whole now).min.toNat = 0 from Octets.toNat_lowest]
    exact Nat.dvd_zero _
  · rw [show (whole now).min.toNat = 0 from Octets.toNat_lowest,
      show (whole now).max.toNat + 1 = 256 ^ 20 from Octets.toNat_highest, Nat.zero_add]
    exact keyCount_eq.symm

namespace IsBlock

variable {b : Bucket} {height : Nat}

/-- A block is not empty. -/
theorem min_le_max (h : b.IsBlock height) : b.min.toNat ≤ b.max.toNat := by
  have := h.2
  have := Nat.two_pow_pos height
  omega

/-- A block with free bits has more than one key. -/
theorem min_lt_max (h : b.IsBlock (height + 1)) : b.min.toNat < b.max.toNat := by
  have hmax := h.2
  have := Nat.two_pow_pos height
  rw [Nat.pow_succ] at hmax
  omega

theorem height_le (h : b.IsBlock height) : height ≤ Key.bits := by
  have hmax := h.2
  have hlt := key_lt b.max
  have hpow : 2 ^ height ≤ 2 ^ Key.bits := by
    rw [show (2 : Nat) ^ Key.bits = keyCount from rfl]
    omega
  exact (Nat.pow_le_pow_iff_right (by omega)).1 hpow

/-- Only a block without free bits holds a single key. -/
theorem isSingleton_iff (h : b.IsBlock height) : b.isSingleton = true ↔ height = 0 := by
  rw [Bucket.isSingleton_iff]
  have hmax := h.2
  constructor
  · intro heq
    have hpow : 2 ^ height = 1 := by omega
    exact (Nat.pow_eq_one.1 hpow).resolve_left (by omega)
  · rintro rfl
    rw [Nat.pow_zero] at hmax
    omega

/-- A key is in a block if it has the bits that are not free. -/
theorem contains_iff (h : b.IsBlock height) {key : Key} :
    b.contains key = true ↔ b.min.toNat / 2 ^ height = key.toNat / 2 ^ height := by
  have hpos := Nat.two_pow_pos height
  have hmin := Nat.div_mul_cancel h.1
  have hmax := h.2
  rw [Bucket.contains_iff, eq_comm, Nat.div_eq_iff hpos, hmin]
  omega

/-- A block that holds a key holds exactly those that share all but the last `height` bits with it. -/
theorem contains_iff_shared (h : b.IsBlock height) {own key : Key} (hown : b.contains own = true) :
    b.contains key = true ↔ Key.bits - height ≤ own.shared key := by
  rw [Key.sub_le_shared_iff h.height_le, h.contains_iff, h.contains_iff.1 hown]

end IsBlock

/-! ## The nodes of a bucket -/

/-- The number of nodes whose ids lie in a bucket. -/
def population (b : Bucket) (nodes : List Node) : Nat := nodes.countP fun n => b.contains n.id

/-- A node more counts for the bucket of its id. -/
theorem population_cons (b : Bucket) (node : Node) (nodes : List Node) :
    b.population (node :: nodes) = b.population nodes + if b.contains node.id then 1 else 0 :=
  List.countP_cons

theorem population_perm (b : Bucket) {nodes others : List Node} (h : nodes.Perm others) :
    b.population nodes = b.population others := h.countP_eq _

/-- Only the ids count. -/
theorem population_eq_of_map_id (b : Bucket) {nodes others : List Node} (h : nodes.map Node.id = others.map Node.id) :
    b.population nodes = b.population others := by
  have hmap : ∀ xs : List Node, b.population xs = (xs.map Node.id).countP b.contains := by
    intro xs
    rw [List.countP_map]
    rfl
  rw [hmap, hmap, h]

/-- A block has no more nodes than keys. -/
theorem IsBlock.population_le {b : Bucket} {height : Nat} (h : b.IsBlock height) {nodes : List Node}
    (hnodes : Ascending nodes) : b.population nodes ≤ 2 ^ height := by
  have hmax := h.2
  have hfilter : Ascending (nodes.filter fun n => b.contains n.id) := hnodes.filter _
  have hle : (nodes.filter fun n => b.contains n.id).length ≤ b.max.toNat + 1 - b.min.toNat := by
    refine hfilter.length_le ?_
    intro n hn
    have := Bucket.contains_iff.1 (List.mem_filter.1 hn).2
    omega
  rw [hmax, Nat.add_sub_cancel_left] at hle
  rw [population, List.countP_eq_length_filter]
  exact hle

/-! ## Halves -/

/-- The halves that a split at time `now` makes of a bucket: up to the midpoint of its ends and from behind it on, each with the
number of its nodes. -/
structure Halves (nodes : List Node) (now : Int) (b lower upper : Bucket) : Prop where
  lower_min : lower.min = b.min
  lower_max : lower.max = b.min.midpoint b.max
  upper_min : lower.max.succ? = some upper.min
  upper_max : upper.max = b.max
  lower_count : lower.count = lower.population nodes
  upper_count : upper.count = upper.population nodes
  lower_changed : lower.changed = now
  upper_changed : upper.changed = now

namespace Halves

variable {nodes : List Node} {now : Int} {b lower upper : Bucket} {height : Nat} {key : Key}

/-- The upper half begins with the key behind the lower one. -/
theorem toNat_upper_min (h : Halves nodes now b lower upper) : upper.min.toNat = lower.max.toNat + 1 :=
  Octets.succ?_eq_some_iff.1 h.upper_min

theorem toNat_lower_max (h : Halves nodes now b lower upper) : lower.max.toNat = (b.min.toNat + b.max.toNat) / 2 := by
  rw [h.lower_max, Octets.toNat_midpoint]

/-- The halves take the place of a bucket of more than one key. -/
theorem tiles (h : Halves nodes now b lower upper) (hb : b.min.toNat < b.max.toNat) :
    Tiles b.min.toNat (b.max.toNat + 1) [lower, upper] := by
  have hmin := h.toNat_upper_min
  have hmid := h.toNat_lower_max
  refine ⟨by rw [h.lower_min], ?_, hmin, ?_, ?_⟩
  · rw [h.lower_min]
    omega
  · rw [h.upper_max]
    omega
  · rw [h.upper_max]
    rfl

/-- The halves of a block are the blocks of the next bit. -/
theorem isBlock (h : Halves nodes now b lower upper) (hb : b.IsBlock (height + 1)) :
    lower.IsBlock height ∧ upper.IsBlock height := by
  obtain ⟨hdvd, hmax⟩ := hb
  have hpos := Nat.two_pow_pos height
  have hmin := h.toNat_upper_min
  have hmid := h.toNat_lower_max
  rw [Nat.pow_succ] at hmax
  have hdvd' : 2 ^ height ∣ b.min.toNat := (Nat.pow_dvd_pow 2 (Nat.le_succ height)).trans hdvd
  have hlower : lower.max.toNat + 1 = b.min.toNat + 2 ^ height := by omega
  refine ⟨⟨by rw [h.lower_min]; exact hdvd', by rw [h.lower_min]; exact hlower⟩, ?_, ?_⟩
  · rw [hmin, hlower]
    exact Nat.dvd_add hdvd' (Nat.dvd_refl _)
  · rw [h.upper_max, hmin, hlower]
    omega

/-- A key of a bucket lies in exactly one of the halves. -/
theorem contains_cases (h : Halves nodes now b lower upper) (hkey : b.contains key = true) :
    (lower.contains key = true ∧ upper.contains key = false) ∨ (lower.contains key = false ∧ upper.contains key = true) := by
  have hmin := h.toNat_upper_min
  have hmax := h.upper_max
  simp only [Bool.eq_false_iff, ne_eq, Bucket.contains_iff, h.lower_min, hmax] at hkey ⊢
  omega

/-- The halves have no key in common. -/
theorem not_upper_contains (h : Halves nodes now b lower upper) (hkey : lower.contains key = true) :
    upper.contains key = false := by
  have hmin := h.toNat_upper_min
  simp only [Bool.eq_false_iff, ne_eq, Bucket.contains_iff] at hkey ⊢
  omega

/-- A key of the upper half is not in the lower one. -/
theorem not_lower_contains (h : Halves nodes now b lower upper) (hkey : upper.contains key = true) :
    lower.contains key = false :=
  Bool.eq_false_iff.2 fun hlower => by rw [h.not_upper_contains hlower] at hkey; cases hkey

/-- A key outside a bucket lies in neither half. -/
theorem not_contains (h : Halves nodes now b lower upper) (hkey : b.contains key = false) :
    lower.contains key = false ∧ upper.contains key = false := by
  have hmin := h.toNat_upper_min
  have hmid := h.toNat_lower_max
  simp only [Bool.eq_false_iff, ne_eq, Bucket.contains_iff, h.lower_min, h.upper_max] at hkey ⊢
  omega

/-- A half holds those keys of the bucket that the other half does not hold. -/
theorem upper_contains_iff (h : Halves nodes now b lower upper) :
    upper.contains key = true ↔ b.contains key = true ∧ ¬lower.contains key = true := by
  cases hkey : b.contains key with
  | true => rcases h.contains_cases hkey with ⟨h1, h2⟩ | ⟨h1, h2⟩ <;> simp [h1, h2]
  | false => simp [h.not_contains hkey]

/-- The lower half has the keys of the bucket that the upper one has not. -/
theorem lower_contains_iff (h : Halves nodes now b lower upper) :
    lower.contains key = true ↔ b.contains key = true ∧ ¬upper.contains key = true := by
  cases hkey : b.contains key with
  | true => rcases h.contains_cases hkey with ⟨h1, h2⟩ | ⟨h1, h2⟩ <;> simp [h1, h2]
  | false => simp [h.not_contains hkey]

/-- The nodes of a bucket are those of its halves. -/
theorem population_add (h : Halves nodes now b lower upper) (xs : List Node) :
    b.population xs = lower.population xs + upper.population xs := by
  refine countP_eq_add ?_ ?_
  · intro n
    cases hkey : b.contains n.id with
    | true => rcases h.contains_cases hkey with ⟨h1, h2⟩ | ⟨h1, h2⟩ <;> rw [h1, h2] <;> rfl
    | false =>
      obtain ⟨h1, h2⟩ := h.not_contains hkey
      rw [h1, h2]
      rfl
  · intro n
    have hmin := h.toNat_upper_min
    rw [Bool.eq_false_iff, ne_eq, Bool.and_eq_true, Bucket.contains_iff, Bucket.contains_iff]
    omega

end Halves

end Bucket

end Kademlia
