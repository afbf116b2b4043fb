import Kademlia.Proofs.Parts
import Mathlib.Order.Bounds.Basic

/-!
# The search against a scan

A scan looks at every item of a list, whatever it answers, and says where the last item is that equals the sought or, if there is none,
how many items lie before the sought (`SortedList.scan`). The binary search looks at few of them. On a list whose items answer in order,
which is all that is asked of the list and of the question, the two come to the same position (`SortedList.positionBy_eq_scan`).
-/

namespace Kademlia.SortedList

variable {α : Type} {cmp : α → α → Ordering} {duplicates : Duplicates} {l : SortedList α cmp duplicates} {f : α → Ordering}
  {xs : List α} {i : Nat}

/-- The items answer in order: first `lt`, then `eq`, then `gt`, each of them any number of times. -/
def AnswersInOrder (f : α → Ordering) (xs : List α) : Prop :=
  ∃ before equal behind, xs = before ++ equal ++ behind ∧ (∀ y ∈ before, f y = .lt) ∧ (∀ y ∈ equal, f y = .eq) ∧
    ∀ y ∈ behind, f y = .gt

/-! ## The scan -/

/-- The position that is found by looking at each item. -/
def scan (f : α → Ordering) : List α → Position
  | [] => .insertAt 0
  | y :: ys =>
    match scan f ys, f y with
    | .found i, _ => .found (i + 1)
    | .insertAt i, .lt => .insertAt (i + 1)
    | .insertAt _, .eq => .found 0
    | .insertAt i, .gt => .insertAt i

/-- The indexes of the items that equal the sought. -/
def equalIndexes (f : α → Ordering) (xs : List α) : Set Nat := {i | ∃ y, xs[i]? = some y ∧ f y = .eq}

@[simp] theorem zero_mem_equalIndexes_cons {y : α} {ys : List α} : 0 ∈ equalIndexes f (y :: ys) ↔ f y = .eq := by
  simp [equalIndexes]

@[simp] theorem succ_mem_equalIndexes_cons {y : α} {ys : List α} : i + 1 ∈ equalIndexes f (y :: ys) ↔ i ∈ equalIndexes f ys := by
  simp [equalIndexes]

/-- A scan that finds the sought ends at the last item that equals it, and another has met none and counts those before the sought. -/
theorem scan_cases (f : α → Ordering) (xs : List α) :
    (∃ i, scan f xs = .found i ∧ IsGreatest (equalIndexes f xs) i) ∨
      scan f xs = .insertAt (xs.countP (f · = .lt)) ∧ ∀ y ∈ xs, f y ≠ .eq := by
  induction xs with
  | nil => exact Or.inr ⟨rfl, by simp⟩
  | cons y ys ih =>
    rcases ih with ⟨i, hscan, hmem, hgreatest⟩ | ⟨hscan, hne⟩
    · refine Or.inl ⟨i + 1, by simp only [scan, hscan], succ_mem_equalIndexes_cons.2 hmem, ?_⟩
      rintro (_ | j) hj
      · exact Nat.zero_le _
      · exact Nat.succ_le_succ (hgreatest (succ_mem_equalIndexes_cons.1 hj))
    · have hnone : ∀ j, j ∉ equalIndexes f ys := by
        rintro j ⟨z, hz, heq⟩
        exact hne z (List.mem_of_getElem? hz) heq
      cases hy : f y with
      | lt => exact Or.inr ⟨by simp [scan, hscan, hy], List.forall_mem_cons.2 ⟨by simp [hy], hne⟩⟩
      | gt => exact Or.inr ⟨by simp [scan, hscan, hy], List.forall_mem_cons.2 ⟨by simp [hy], hne⟩⟩
      | eq =>
        refine Or.inl ⟨0, by simp only [scan, hscan, hy], zero_mem_equalIndexes_cons.2 hy, ?_⟩
        rintro (_ | j) hj
        · exact Nat.le_refl _
        · exact absurd (succ_mem_equalIndexes_cons.1 hj) (hnone j)

/-- A scan finds the last of the equal indexes. -/
theorem scan_eq_found_iff : scan f xs = .found i ↔ IsGreatest (equalIndexes f xs) i := by
  rcases scan_cases f xs with ⟨j, hscan, hj⟩ | ⟨hscan, hne⟩
  · rw [hscan, Position.found.injEq]
    exact ⟨fun h => h ▸ hj, fun h => hj.unique h⟩
  · rw [hscan]
    refine ⟨(nomatch ·), ?_⟩
    rintro ⟨⟨y, hy, heq⟩, -⟩
    exact absurd heq (hne y (List.mem_of_getElem? hy))

/-- A scan that meets no equal ends behind the elements that are less. -/
theorem scan_eq_insertAt_iff : scan f xs = .insertAt i ↔ (∀ y ∈ xs, f y ≠ .eq) ∧ i = xs.countP (f · = .lt) := by
  rcases scan_cases f xs with ⟨j, hscan, ⟨y, hy, heq⟩, -⟩ | ⟨hscan, hne⟩
  · rw [hscan]
    exact ⟨(nomatch ·), fun h => absurd heq (h.1 y (List.mem_of_getElem? hy))⟩
  · rw [hscan, Position.insertAt.injEq]
    exact ⟨fun h => ⟨hne, h.symm⟩, fun h => h.2.symm⟩

/-! ## The search -/

/-- Of items that answer in order, those before the sought are the first ones. -/
theorem countP_lt_parts {before equal behind : List α} (hlt : ∀ y ∈ before, f y = .lt) (heq : ∀ y ∈ equal, f y = .eq)
    (hgt : ∀ y ∈ behind, f y = .gt) : (before ++ equal ++ behind).countP (f · = .lt) = before.length := by
  rw [List.append_assoc]
  refine countP_append_eq_length (fun y hy => decide_eq_true (hlt y hy)) (List.forall_mem_append.2 ⟨?_, ?_⟩)
  · intro y hy
    simp [heq y hy]
  · intro y hy
    simp [hgt y hy]

/-- On items that answer in order the search comes to the position that a scan finds. -/
theorem AnswersInOrder.positionBy_eq (h : AnswersInOrder f l.items) : l.positionBy f = scan f l.items := by
  obtain ⟨before, equal, behind, hitems, hlt, heq, hgt⟩ := h
  have hcount := countP_lt_parts hlt heq hgt
  rw [positionBy_parts hitems hlt heq hgt]
  rw [← hitems] at hcount
  split
  · rename_i hpos
    refine (scan_eq_found_iff.2 ⟨?_, ?_⟩).symm
    · have hget : l.items[before.length + equal.length - 1]? = equal[equal.length - 1]? := by
        rw [hitems, List.append_assoc, List.getElem?_append_right (by omega), List.getElem?_append_left (by omega)]
        congr 1
        omega
      exact ⟨_, hget.trans (List.getElem?_eq_getElem (by omega)), heq _ (List.getElem_mem _)⟩
    · rintro j ⟨y, hy, hyeq⟩
      -- an index further on is one of an item behind the sought
      by_contra hlater
      rw [hitems, List.getElem?_append_right (by rw [List.length_append]; omega)] at hy
      rw [hgt y (List.mem_of_getElem? hy)] at hyeq
      cases hyeq
  · rename_i hpos
    obtain rfl : equal = [] := List.eq_nil_of_length_eq_zero (by omega)
    refine (scan_eq_insertAt_iff.2 ⟨?_, hcount.symm⟩).symm
    rw [hitems, List.append_nil]
    exact List.forall_mem_append.2 ⟨fun y hy => by simp [hlt y hy], fun y hy => by simp [hgt y hy]⟩

/-- Where the items answer in order how they compare with an element, it goes behind those that are less. -/
theorem AnswersInOrder.firstNotLess_eq {x : α} (h : AnswersInOrder (cmp · x) l.items) :
    l.firstNotLess x = l.items.countP (cmp · x = .lt) := by
  obtain ⟨before, equal, behind, hitems, hlt, heq, hgt⟩ := h
  have hparts : l.Parts x before equal behind := ⟨hitems, hlt, heq, hgt⟩
  rw [hparts.firstNotLess, hitems]
  exact (countP_lt_parts hlt heq hgt).symm

/-- Whatever the list, if its items answer a question in order the search comes to the position that a scan of the items finds. The sought
is found at the last index of an item that equals it, if there is one, and otherwise would stand behind as many items as lie before it. The
place of a new element among its equals is behind as many items as are less. -/
theorem positionBy_eq_scan (l : SortedList α cmp duplicates) :
    (∀ f, AnswersInOrder f l.items →
      l.positionBy f = scan f l.items ∧
      (∀ i, l.positionBy f = .found i ↔ IsGreatest (equalIndexes f l.items) i) ∧
      ∀ i, l.positionBy f = .insertAt i ↔ (∀ y ∈ l.items, f y ≠ .eq) ∧ i = l.items.countP (f · = .lt)) ∧
    ∀ x, AnswersInOrder (cmp · x) l.items → l.firstNotLess x = l.items.countP (cmp · x = .lt) := by
  refine ⟨fun f h => ?_, fun x h => h.firstNotLess_eq⟩
  have hscan := h.positionBy_eq
  refine ⟨hscan, fun i => ?_, fun i => ?_⟩
  · rw [hscan]
    exact scan_eq_found_iff
  · rw [hscan]
    exact scan_eq_insertAt_iff

/-- A list of one, three, three, three and five: three is found at the last of its places and a further one would go to the first, four would
stand behind four items, and nought, which all items lie behind, in front of them. -/
theorem positionBy_eq_scan_of_threes :
    let l : SortedList Nat compare .kept := ⟨[1, 3, 3, 3, 5]⟩
    (AnswersInOrder (compare · 3) l.items ∧ AnswersInOrder (compare · 4) l.items ∧ AnswersInOrder (compare · 0) l.items) ∧
      l.positionBy (compare · 3) = .found 3 ∧ l.firstNotLess 3 = 1 ∧ l.positionBy (compare · 4) = .insertAt 4 ∧
      l.positionBy (compare · 0) = .insertAt 0 := by
  intro l
  have hthree : AnswersInOrder (compare · 3) l.items := ⟨[1], [3, 3, 3], [5], rfl, by decide, by decide, by decide⟩
  have hfour : AnswersInOrder (compare · 4) l.items := ⟨[1, 3, 3, 3], [], [5], rfl, by decide, by decide, by decide⟩
  have hnought : AnswersInOrder (compare · 0) l.items := ⟨[], [], [1, 3, 3, 3, 5], rfl, by decide, by decide, by decide⟩
  obtain ⟨hsearch, hplace⟩ := positionBy_eq_scan l
  refine ⟨⟨hthree, hfour, hnought⟩, ?_, hplace 3 hthree, ?_, ?_⟩
  · exact (hsearch _ hthree).1
  · exact ((hsearch _ hfour).2.2 4).2 ⟨by decide, rfl⟩
  · exact ((hsearch _ hnought).2.2 0).2 ⟨by decide, rfl⟩

end Kademlia.SortedList
