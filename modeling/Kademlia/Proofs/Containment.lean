import Kademlia.Directory
import Kademlia.Proofs.Lookup
import Kademlia.Proofs.Partition

/-!
# Buckets that lie apart

The comparison of buckets is no order in general: the interval of one key equals every bucket that contains this key, however these
compare among themselves. Among buckets of which no two share a key it is one, also where they leave gaps, as in the middle of a split.
`Spaced` says that buckets lie apart and one behind the other. A bucket apart from all of these falls into a gap between them and stands
there in order (`Spaced.exists_gap`, `Spaced.insert`), so buckets that lie apart are all kept, in whatever order they come
(`BucketList.spaced_addAll`). To each of them the interval of one key is the same question as the key itself (`Bucket.order_probe`).
-/

namespace Kademlia

namespace Bucket

variable {a b probe : Bucket} {key : Key}

/-! ## Two buckets -/

/-- No key lies in both. -/
def Apart (a b : Bucket) : Prop := ∀ key, ¬(a.contains key = true ∧ b.contains key = true)

theorem Apart.symm (h : Apart a b) : Apart b a := by
  intro key hkey
  exact h key hkey.symm

/-- Of two proper buckets that are apart, one ends before the other begins. -/
theorem apart_iff (ha : a.min ≤ a.max) (hb : b.min ≤ b.max) : Apart a b ↔ a.max < b.min ∨ b.max < a.min := by
  rw [Octets.le_iff] at ha hb
  rw [Octets.lt_iff, Octets.lt_iff]
  constructor
  · intro h
    -- Otherwise the greater of the two lower ends is a key of both.
    have hbmin := h b.min
    have hamin := h a.min
    rw [contains_iff, contains_iff] at hbmin hamin
    omega
  · intro h key hkey
    rw [contains_iff, contains_iff] at hkey
    omega

/-- A proper bucket orders relative to the interval of one key as it does relative to this key. -/
theorem order_probe (hb : b.min ≤ b.max) (hmin : probe.min = key) (hmax : probe.max = key) :
    order b probe = b.locate key := by
  rw [Octets.le_iff] at hb
  subst hmin
  have hprobe : probe.min.toNat ≤ probe.max.toNat := by rw [hmax]
  rcases Nat.lt_or_ge b.max.toNat probe.min.toNat with hlt | hge
  · rw [order_eq_lt hb hlt, locate_eq_lt hlt]
  · rcases Nat.lt_or_ge probe.min.toNat b.min.toNat with hgt | hle
    · rw [order_eq_gt hprobe (by rw [hmax]; exact hgt), locate_eq_gt hb hgt]
    · have hin : b.contains probe.min = true := contains_iff.2 ⟨hle, hge⟩
      have hsingle : probe.isSingleton = true := isSingleton_iff.2 (by rw [hmax])
      unfold order
      rw [locate_eq_iff.2 hin, hsingle, hin]
      rfl

end Bucket

/-! ## Buckets one behind the other -/

/-- Proper buckets, each of which ends before the later ones begin. -/
structure Spaced (bs : List Bucket) : Prop where
  proper : ∀ b ∈ bs, b.min ≤ b.max
  ascending : bs.Pairwise fun a b => a.max < b.min

namespace Spaced

variable {bs before behind : List Bucket} {x : Bucket}

theorem nil : Spaced [] where
  proper := by
    intro b hb
    cases hb
  ascending := .nil

/-- A bucket may stand in a gap that it fits into. -/
theorem insert (h : Spaced (before ++ behind)) (hx : x.min ≤ x.max) (hbefore : ∀ b ∈ before, b.max < x.min)
    (hbehind : ∀ b ∈ behind, x.max < b.min) : Spaced (before ++ x :: behind) where
  proper := by
    obtain ⟨h1, h2⟩ := List.forall_mem_append.1 h.proper
    exact List.forall_mem_append.2 ⟨h1, List.forall_mem_cons.2 ⟨hx, h2⟩⟩
  ascending := by
    obtain ⟨h1, h2, hacross⟩ := List.pairwise_append.1 h.ascending
    refine List.pairwise_append.2 ⟨h1, List.pairwise_cons.2 ⟨hbehind, h2⟩, ?_⟩
    intro b hb
    exact List.forall_mem_cons.2 ⟨hbefore b hb, hacross b hb⟩

/-- A bucket apart from all falls into a gap between them. -/
theorem exists_gap (h : Spaced bs) (hx : x.min ≤ x.max) (hapart : ∀ b ∈ bs, Bucket.Apart b x) :
    ∃ before behind, bs = before ++ behind ∧ (∀ b ∈ before, b.max < x.min) ∧ ∀ b ∈ behind, x.max < b.min := by
  induction bs with
  | nil => exact ⟨[], [], rfl, by simp, by simp⟩
  | cons b bs ih =>
    obtain ⟨hb, hproper⟩ := List.forall_mem_cons.1 h.proper
    obtain ⟨hbelow, hascending⟩ := List.pairwise_cons.1 h.ascending
    obtain ⟨hbx, hrest⟩ := List.forall_mem_cons.1 hapart
    rcases (Bucket.apart_iff hb hx).1 hbx with hlt | hgt
    · obtain ⟨before, behind, rfl, hbefore, hbehind⟩ := ih ⟨hproper, hascending⟩ hrest
      exact ⟨b :: before, behind, rfl, List.forall_mem_cons.2 ⟨hlt, hbefore⟩, hbehind⟩
    · refine ⟨[], b :: bs, rfl, by simp, List.forall_mem_cons.2 ⟨hgt, ?_⟩⟩
      intro c hc
      have hbc := hbelow c hc
      simp only [Octets.lt_iff, Octets.le_iff] at hb hgt hbc ⊢
      omega

/-- The buckets before one that is not behind a key are before this key. -/
theorem locate_pairwise (h : Spaced bs) (key : Key) : bs.Pairwise fun a b => b.locate key ≠ .gt → a.locate key = .lt := by
  refine h.ascending.imp_of_mem ?_
  intro a b _ hb hab hkey
  have hproper := h.proper b hb
  rw [Octets.le_iff] at hproper
  rw [Octets.lt_iff] at hab
  refine Bucket.locate_eq_lt (Nat.lt_of_lt_of_le hab (Nat.le_of_not_lt ?_))
  intro hlt
  exact hkey (Bucket.locate_eq_gt hproper hlt)

end Spaced

/-! ## Lists of buckets -/

namespace BucketList

variable {l : BucketList} {bs : List Bucket} {x : Bucket}

/-- A bucket apart from those in a list is kept. -/
theorem spaced_add (h : Spaced l.items) (hx : x.min ≤ x.max) (hapart : ∀ b ∈ l.items, Bucket.Apart b x) :
    (l.add x).2 = true ∧ Spaced (l.add x).1.items ∧ (l.add x).1.items.Perm (x :: l.items) := by
  obtain ⟨before, behind, hitems, hbefore, hbehind⟩ := h.exists_gap hx hapart
  have hspaced : Spaced (before ++ x :: behind) := Spaced.insert (hitems ▸ h) hx hbefore hbehind
  have hproper := hitems ▸ h.proper
  have hadd : l.add x = (⟨before ++ x :: behind⟩, true) := by
    refine SortedList.add_gap x hitems ?_ ?_
    · intro b hb
      have hb' := hproper b (List.mem_append_left _ hb)
      exact Bucket.order_eq_lt (Octets.le_iff.1 hb') (Octets.lt_iff.1 (hbefore b hb))
    · intro b hb
      exact Bucket.order_eq_gt (Octets.le_iff.1 hx) (Octets.lt_iff.1 (hbehind b hb))
  rw [hadd, hitems]
  exact ⟨rfl, hspaced, List.perm_middle⟩

/-- Buckets apart from those in a list and from each other are all kept. -/
theorem spaced_addAll (h : Spaced l.items) (hproper : ∀ b ∈ bs, b.min ≤ b.max) (hapart : (l.items ++ bs).Pairwise Bucket.Apart) :
    Spaced (l.addAll bs).1.items ∧ (l.addAll bs).1.items.Perm (l.items ++ bs) := by
  induction bs generalizing l with
  | nil =>
    rw [List.append_nil]
    exact ⟨h, .refl _⟩
  | cons b bs ih =>
    obtain ⟨hb, hbs⟩ := List.forall_mem_cons.1 hproper
    have hacross : ∀ a ∈ l.items, Bucket.Apart a b := by
      intro a ha
      exact (List.pairwise_append.1 hapart).2.2 a ha b List.mem_cons_self
    obtain ⟨-, hspaced, hperm⟩ := spaced_add h hb hacross
    have hmoved : ((l.add b).1.items ++ bs).Perm (l.items ++ b :: bs) := (hperm.append_right bs).trans List.perm_middle.symm
    have hapart' := (hmoved.pairwise_iff Bucket.Apart.symm).2 hapart
    obtain ⟨hspaced', hperm'⟩ := ih hspaced hbs hapart'
    exact ⟨hspaced', hperm'.trans hmoved⟩

/-- Of buckets that lie apart a list holds every one. -/
theorem spaced_ofList (hproper : ∀ b ∈ bs, b.min ≤ b.max) (hapart : bs.Pairwise Bucket.Apart) :
    Spaced (SortedList.ofList bs : BucketList).items ∧ (SortedList.ofList bs : BucketList).items.Perm bs :=
  spaced_addAll (l := .empty) Spaced.nil hproper hapart

/-- A search for a key finds the bucket that contains it, if there is one. -/
theorem getBy?_locate_eq_some_iff (h : Spaced l.items) {key : Key} {b : Bucket} :
    l.getBy? (·.locate key) = some b ↔ b ∈ l.items ∧ b.contains key = true := by
  rw [← Bucket.locate_eq_iff]
  exact SortedList.getBy?_eq_some_iff (h.locate_pairwise key)

/-- The interval of one key steers the search as this key does. -/
theorem get?_probe (h : Spaced l.items) {key : Key} {probe : Bucket} (hmin : probe.min = key) (hmax : probe.max = key) :
    l.get? probe = l.getBy? (·.locate key) := by
  refine SortedList.getBy?_congr ?_
  intro b hb
  exact Bucket.order_probe (h.proper b hb) hmin hmax

/-- Proper buckets of which no two share a key are all kept, whatever their order, and make a list in the order of the keys. In it a
key, the interval of this key alone and the addition of that interval find the bucket that contains the key, or a gap. -/
theorem ofList_of_apart (bs : List Bucket) (hproper : ∀ b ∈ bs, b.min ≤ b.max) (hapart : bs.Pairwise Bucket.Apart) :
    let l : BucketList := .ofList bs
    (∀ before b behind, bs = before ++ b :: behind → ((SortedList.ofList before : BucketList).add b).2 = true) ∧
      l.items.Perm bs ∧ l.items.Pairwise (fun a b => a.max < b.min) ∧
      ∀ key probe, probe.min = key → probe.max = key →
        (∀ b, l.getBy? (·.locate key) = some b ↔ b ∈ bs ∧ b.contains key = true) ∧
        (∀ b, l.get? probe = some b ↔ b ∈ bs ∧ b.contains key = true) ∧
        ((l.add probe).2 = false ↔ ∃ b ∈ bs, b.contains key = true) := by
  intro l
  obtain ⟨hspaced, hperm⟩ : Spaced l.items ∧ l.items.Perm bs := spaced_ofList hproper hapart
  refine ⟨?_, hperm, hspaced.ascending, ?_⟩
  · rintro before b behind rfl
    obtain ⟨hbefore, hrest, hacross⟩ := List.pairwise_append.1 hapart
    obtain ⟨hproperBefore, hproperRest⟩ := List.forall_mem_append.1 hproper
    obtain ⟨hspacedBefore, hpermBefore⟩ := spaced_ofList hproperBefore hbefore
    refine (spaced_add hspacedBefore (hproperRest b List.mem_cons_self) ?_).1
    intro a ha
    exact hacross a (hpermBefore.mem_iff.1 ha) b List.mem_cons_self
  · intro key probe hmin hmax
    have hfind : ∀ b, l.getBy? (·.locate key) = some b ↔ b ∈ bs ∧ b.contains key = true := by
      intro b
      rw [getBy?_locate_eq_some_iff hspaced, hperm.mem_iff]
    have hprobe : ∀ b, l.get? probe = some b ↔ b ∈ bs ∧ b.contains key = true := by
      intro b
      rw [get?_probe hspaced hmin hmax, hfind]
    refine ⟨hfind, hprobe, ?_⟩
    rw [SortedList.add_eq_false_iff]
    exact exists_congr hprobe

/-- Three buckets, one of them of one key, that come in no order: one of them is found by a key that it contains, and a key in the gap
between two of them is not refused. -/
theorem ofList_of_apart_of_gap :
    let key : Nat → Key := Octets.ofNat 20
    let bs : List Bucket := [⟨key 20, key 30, 0, 0⟩, ⟨key 5, key 5, 0, 0⟩, ⟨key 10, key 15, 0, 0⟩]
    let l : BucketList := .ofList bs
    l.get? ⟨key 12, key 12, 0, 0⟩ = some ⟨key 10, key 15, 0, 0⟩ ∧ (l.add ⟨key 17, key 17, 0, 0⟩).2 ≠ false := by
  intro key bs l
  have hproper : ∀ b ∈ bs, b.min ≤ b.max := by decide
  have hlt : bs.Pairwise fun a b => a.max < b.min ∨ b.max < a.min := by decide
  have hapart : bs.Pairwise Bucket.Apart := by
    refine hlt.imp_of_mem ?_
    intro a b ha hb hab
    exact (Bucket.apart_iff (hproper a ha) (hproper b hb)).2 hab
  obtain ⟨-, -, -, hqueries⟩ := ofList_of_apart bs hproper hapart
  constructor
  · exact ((hqueries (key 12) _ rfl rfl).2.1 _).2 (by decide)
  · rw [ne_eq, (hqueries (key 17) _ rfl rfl).2.2]
    decide

end BucketList

end Kademlia
