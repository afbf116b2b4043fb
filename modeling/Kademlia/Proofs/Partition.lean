import Kademlia.Bucket
import Kademlia.Proofs.Numeric
import Mathlib.Data.List.Chain

/-!
# Buckets that divide the key space

`Tiles start stop bs` says that the buckets `bs` lie one behind the other and hold exactly the keys from number `start` up to, but
not including, number `stop`. Tilings compose (`Tiles.append`), so a bucket in a tiling may be replaced by any tiling of its own
keys. `Partition` is the same property of the whole key space in terms of keys, and `partition_of_tiles` ties the two.
-/

namespace Kademlia

namespace Bucket

/-! ## One bucket -/

/-- A key lies in a bucket if its value lies between those of the ends. -/
theorem contains_iff {b : Bucket} {key : Key} :
    b.contains key = true ↔ b.min.toNat ≤ key.toNat ∧ key.toNat ≤ b.max.toNat := by
  simp only [contains, Bool.and_eq_true, decide_eq_true_eq, Octets.le_iff]

theorem isSingleton_iff {b : Bucket} : b.isSingleton = true ↔ b.min.toNat = b.max.toNat := by
  simp only [isSingleton, decide_eq_true_eq, Octets.toNat_eq_iff]

/-- A bucket that ends before a key is less. -/
theorem locate_eq_lt {b : Bucket} {key : Key} (h : b.max.toNat < key.toNat) : b.locate key = .lt := by
  unfold locate
  rw [if_pos (Octets.lt_iff.2 h)]

theorem locate_eq_gt {b : Bucket} {key : Key} (hb : b.min.toNat ≤ b.max.toNat) (h : key.toNat < b.min.toNat) :
    b.locate key = .gt := by
  unfold locate
  rw [if_neg (by rw [Octets.lt_iff]; omega), if_pos (Octets.lt_iff.2 h)]

/-- A bucket that ends before another begins is less than it. -/
theorem order_eq_lt {a b : Bucket} (ha : a.min.toNat ≤ a.max.toNat) (h : a.max.toNat < b.min.toNat) :
    order a b = .lt := by
  have h1 : ¬a.contains b.min = true := by rw [contains_iff]; omega
  have h2 : ¬b.contains a.min = true := by rw [contains_iff]; omega
  unfold order
  rw [if_neg (by simp [h1]), if_neg (by simp [h2])]
  exact Octets.lt_iff.2 (by omega)

/-- A bucket that begins after another ends is greater than it. -/
theorem order_eq_gt {a b : Bucket} (hb : b.min.toNat ≤ b.max.toNat) (h : b.max.toNat < a.min.toNat) :
    order a b = .gt := by
  have h1 : ¬a.contains b.min = true := by rw [contains_iff]; omega
  have h2 : ¬b.contains a.min = true := by rw [contains_iff]; omega
  unfold order
  rw [if_neg (by simp [h1]), if_neg (by simp [h2]), Octets.compare_eq]
  exact Nat.compare_eq_gt.2 (by omega)

end Bucket

/-! ## Tilings -/

/-- Buckets that lie one behind the other and hold exactly the keys whose number is at least `start` and less than `stop`. -/
def Tiles : Nat → Nat → List Bucket → Prop
  | start, stop, [] => start = stop
  | start, stop, b :: bs => b.min.toNat = start ∧ b.min.toNat ≤ b.max.toNat ∧ Tiles (b.max.toNat + 1) stop bs

namespace Tiles

variable {start stop : Nat} {bs : List Bucket} {key : Key}

/-- A bucket tiles its own keys. -/
theorem singleton {b : Bucket} (h : b.min.toNat ≤ b.max.toNat) : Tiles b.min.toNat (b.max.toNat + 1) [b] :=
  ⟨rfl, h, rfl⟩

/-- Two tilings, one behind the other, are one tiling, and a tiling may be cut between any two buckets. -/
theorem append {xs ys : List Bucket} :
    Tiles start stop (xs ++ ys) ↔ ∃ middle, Tiles start middle xs ∧ Tiles middle stop ys := by
  induction xs generalizing start with
  | nil => simp [Tiles]
  | cons b xs ih =>
    simp only [List.cons_append, Tiles, ih]
    constructor
    · rintro ⟨h1, h2, middle, h3, h4⟩
      exact ⟨middle, ⟨h1, h2, h3⟩, h4⟩
    · rintro ⟨middle, ⟨h1, h2, h3⟩, h4⟩
      exact ⟨h1, h2, middle, h3, h4⟩

/-- The part of a tiling before a bucket, the bucket, and the part behind it. -/
theorem middle {before behind : List Bucket} {b : Bucket} :
    Tiles start stop (before ++ b :: behind) ↔
      Tiles start b.min.toNat before ∧ b.min.toNat ≤ b.max.toNat ∧ Tiles (b.max.toNat + 1) stop behind := by
  rw [append]
  constructor
  · rintro ⟨_, h1, rfl, h2, h3⟩
    exact ⟨h1, h2, h3⟩
  · rintro ⟨h1, h2, h3⟩
    exact ⟨_, h1, rfl, h2, h3⟩

/-- A bucket of a tiling may be replaced by a tiling of its own keys. -/
theorem replace {before bs behind : List Bucket} {b : Bucket} (h : Tiles start stop (before ++ b :: behind))
    (hbs : Tiles b.min.toNat (b.max.toNat + 1) bs) : Tiles start stop (before ++ bs ++ behind) := by
  obtain ⟨h1, -, h3⟩ := middle.1 h
  rw [List.append_assoc, append]
  refine ⟨_, h1, ?_⟩
  rw [append]
  exact ⟨_, hbs, h3⟩

/-- A tiling does not end before it starts. -/
theorem start_le_stop (h : Tiles start stop bs) : start ≤ stop := by
  induction bs generalizing start with
  | nil => exact Nat.le_of_eq h
  | cons b bs ih =>
    obtain ⟨rfl, hb, hbs⟩ := h
    have := ih hbs
    omega

/-- A tiling of any keys at all has a bucket. -/
theorem ne_nil (h : Tiles start stop bs) (hlt : start < stop) : bs ≠ [] := by
  rintro rfl
  have : start = stop := h
  omega

/-- Each bucket of a tiling is proper and stays inside. -/
theorem bounds (h : Tiles start stop bs) {b : Bucket} (hb : b ∈ bs) :
    start ≤ b.min.toNat ∧ b.min.toNat ≤ b.max.toNat ∧ b.max.toNat < stop := by
  obtain ⟨before, behind, rfl⟩ := List.append_of_mem hb
  obtain ⟨h1, h2, h3⟩ := middle.1 h
  have := start_le_stop h1
  have := start_le_stop h3
  omega

/-- Each bucket of a tiling ends before the later ones begin. -/
theorem pairwise (h : Tiles start stop bs) : bs.Pairwise fun a b => a.max.toNat < b.min.toNat := by
  induction bs generalizing start with
  | nil => exact .nil
  | cons b bs ih =>
    obtain ⟨-, -, hbs⟩ := h
    exact List.pairwise_cons.2 ⟨fun c hc => (hbs.bounds hc).1, ih hbs⟩

/-- The keys of a tiling lie in its buckets. -/
theorem exists_contains (h : Tiles start stop bs) (hstart : start ≤ key.toNat) (hstop : key.toNat < stop) :
    ∃ before b behind, bs = before ++ b :: behind ∧ b.contains key = true := by
  induction bs generalizing start with
  | nil =>
    have : start = stop := h
    omega
  | cons b bs ih =>
    obtain ⟨rfl, hb, hbs⟩ := h
    by_cases hkey : key.toNat ≤ b.max.toNat
    · exact ⟨[], b, bs, rfl, Bucket.contains_iff.2 ⟨hstart, hkey⟩⟩
    · obtain ⟨before, c, behind, rfl, hc⟩ := ih hbs (by omega)
      exact ⟨b :: before, c, behind, rfl, hc⟩

/-- Buckets that do not contain a key of the tiling are the other ones. -/
theorem not_contains_of_lt (h : Tiles start stop bs) (hkey : key.toNat < start ∨ stop ≤ key.toNat) {b : Bucket}
    (hb : b ∈ bs) : b.contains key = false := by
  have := h.bounds hb
  rw [Bool.eq_false_iff, ne_eq, Bucket.contains_iff]
  omega

/-- All buckets of a tiling that ends at a key or before are less than this key. -/
theorem locate_lt (h : Tiles start stop bs) (hkey : stop ≤ key.toNat) : ∀ b ∈ bs, b.locate key = .lt := by
  intro b hb
  have := h.bounds hb
  exact Bucket.locate_eq_lt (by omega)

/-- All buckets of a tiling that starts behind a key are greater than this key. -/
theorem locate_gt (h : Tiles start stop bs) (hkey : key.toNat < start) : ∀ b ∈ bs, b.locate key = .gt := by
  intro b hb
  have := h.bounds hb
  exact Bucket.locate_eq_gt (by omega) (by omega)

/-- All buckets of a tiling that ends where a bucket begins, or before, come before this bucket. -/
theorem order_lt (h : Tiles start stop bs) {x : Bucket} (hstop : stop ≤ x.min.toNat) :
    ∀ b ∈ bs, Bucket.order b x = .lt := by
  intro b hb
  have := h.bounds hb
  exact Bucket.order_eq_lt (by omega) (by omega)

/-- All buckets of a tiling that starts behind a bucket come after this bucket. -/
theorem order_gt (h : Tiles start stop bs) {x : Bucket} (hx : x.min.toNat ≤ x.max.toNat) (hstart : x.max.toNat < start) :
    ∀ b ∈ bs, Bucket.order b x = .gt := by
  intro b hb
  have := h.bounds hb
  exact Bucket.order_eq_gt hx (by omega)

end Tiles

/-! ## Partitions -/

/-- Buckets that divide the whole key space among them, in the order of the keys. -/
structure Partition (bs : List Bucket) : Prop where
  first : bs.head?.map Bucket.min = some Key.lowest
  last : bs.getLast?.map Bucket.max = some Key.highest
  proper : ∀ b ∈ bs, b.min ≤ b.max
  adjacent : bs.IsChain fun a b => a.max.succ? = some b.min

/-- The number of keys. -/
def keyCount : Nat := 2 ^ Key.bits

theorem keyCount_eq : keyCount = 256 ^ 20 := by decide

/-- The value of a key is below the number of keys. -/
theorem key_lt (key : Key) : key.toNat < keyCount := keyCount_eq ▸ key.toNat_lt

/-- Of two buckets of a tiling that follow each other, the second begins with the key behind the last of the first. -/
theorem Tiles.isChain {start stop : Nat} {bs : List Bucket} (h : Tiles start stop bs) :
    bs.IsChain fun a b => a.max.succ? = some b.min := by
  induction bs generalizing start with
  | nil => exact .nil
  | cons b bs ih =>
    obtain ⟨-, -, hbs⟩ := h
    cases bs with
    | nil => exact .singleton b
    | cons c bs => exact .cons_cons (Octets.succ?_eq_some_iff.2 hbs.1) (ih hbs)

/-- The last bucket of a tiling ends where the tiling does. -/
theorem Tiles.getLast?_max {start stop : Nat} {bs : List Bucket} {b : Bucket} (h : Tiles start stop bs)
    (hb : bs.getLast? = some b) : b.max.toNat + 1 = stop := by
  obtain ⟨before, rfl⟩ := List.getLast?_eq_some_iff.1 hb
  exact (Tiles.middle.1 h).2.2

/-- Buckets that tile the whole key space are a partition of it. -/
theorem partition_of_tiles {bs : List Bucket} (h : Tiles 0 keyCount bs) : Partition bs where
  first := by
    cases bs with
    | nil =>
      have : 0 = keyCount := h
      simp [keyCount_eq] at this
    | cons b bs =>
      have hb : b.min = Key.lowest := Octets.toNat_injective (h.1.trans Octets.toNat_lowest.symm)
      simp [hb]
  last := by
    cases hl : bs.getLast? with
    | none =>
      rw [List.getLast?_eq_none_iff] at hl
      subst hl
      have : 0 = keyCount := h
      simp [keyCount_eq] at this
    | some b =>
      have hmax := h.getLast?_max hl
      have hb : b.max = Key.highest := Octets.toNat_injective (by
        have := Octets.toNat_highest (n := 20)
        rw [keyCount_eq] at hmax
        change b.max.toNat = (Octets.highest 20).toNat
        omega)
      simp [hb]
  proper b hb := Octets.le_iff.2 (h.bounds hb).2.1
  adjacent := h.isChain

end Kademlia
