import Kademlia.Proofs.Edits
import Mathlib.Data.List.Induction

/-!
# Lists in order, seen from a probe

A list is in order when no element is greater than a later one, whether or not it keeps equal elements. A probe divides such a list into
what is less, what equals it and what is greater (`Parts`), and the operations are told by these parts: a new element goes behind what
is less, an element is found at, and taken out from, the end of what equals it. So removals until none is found take out just the middle
part, however long it is, and leave the list in order for the next probe (`InOrder.removeEvery`, `InOrder.removeAll`).
-/

namespace Kademlia.SortedList

variable {α : Type} {cmp : α → α → Ordering} {duplicates : Duplicates} {l : SortedList α cmp duplicates} {x y : α}
  {less equal greater : List α}

/-! ## The three parts of a list -/

/-- What a probe divides a list into: the elements less than it, those that equal it, and those greater than it. -/
structure Parts (l : SortedList α cmp duplicates) (x : α) (less equal greater : List α) : Prop where
  items : l.items = less ++ equal ++ greater
  lt : ∀ y ∈ less, cmp y x = .lt
  eq : ∀ y ∈ equal, cmp y x = .eq
  gt : ∀ y ∈ greater, cmp y x = .gt

namespace Parts

/-- A probe is found at the last element that equals it. -/
theorem positionOf (h : l.Parts x less equal greater) :
    l.positionOf x = if 0 < equal.length then .found (less.length + equal.length - 1) else .insertAt less.length :=
  positionBy_parts h.items h.lt h.eq h.gt

/-- The index behind what is less is found by a search that calls nothing equal. -/
theorem firstNotLess (h : l.Parts x less equal greater) : l.firstNotLess x = less.length := by
  have hitems : l.items = less ++ (equal ++ greater) := by rw [h.items, List.append_assoc]
  have hgap : l.positionBy (fun y => if cmp y x = .lt then .lt else .gt) = .insertAt less.length := by
    refine positionBy_gap hitems ?_ (List.forall_mem_append.2 ⟨?_, ?_⟩)
    · intro y hy
      exact if_pos (h.lt y hy)
    · intro y hy
      simp [h.eq y hy]
    · intro y hy
      simp [h.gt y hy]
  unfold SortedList.firstNotLess
  rw [hgap]
  rfl

/-- A new element goes behind what is less, before all that equal it. -/
theorem add {l : SortedList α cmp .kept} (h : l.Parts x less equal greater) :
    l.add x = (⟨less ++ x :: (equal ++ greater)⟩, true) := by
  have hinsert : l.items.insertIdx less.length x = less ++ x :: (equal ++ greater) := by
    rw [h.items, List.append_assoc, insertIdx_length_append]
  by_cases hpos : 0 < equal.length
  · rw [add_of_found_kept (h.positionOf.trans (if_pos hpos)), h.firstNotLess, hinsert]
  · rw [add_of_insertAt (h.positionOf.trans (if_neg hpos)), hinsert]

/-- The element found is the last that equals the probe. -/
theorem get? (h : l.Parts x less equal greater) : l.get? x = equal.getLast? := by
  have hpos := h.positionOf
  rcases List.eq_nil_or_concat equal with rfl | ⟨newer, oldest, rfl⟩
  · exact getBy?_of_insertAt hpos
  · rw [if_pos (by simp)] at hpos
    refine (getBy?_of_found hpos).trans ?_
    simp [h.items]

/-- The element taken out is the last that equals the probe. -/
theorem remove? (h : l.Parts x less equal greater) :
    l.remove? x = equal.getLast?.map fun y => (y, ⟨less ++ equal.dropLast ++ greater⟩) := by
  have hpos := h.positionOf
  rcases List.eq_nil_or_concat equal with rfl | ⟨newer, oldest, rfl⟩
  · exact remove?_of_insertAt hpos
  · rw [if_pos (by simp)] at hpos
    rw [remove?_of_found hpos]
    simp [h.items, List.eraseIdx_append_of_length_le]

/-- The parts of a list without the last element that equals the probe. -/
theorem dropLast (h : l.Parts x less equal greater) :
    (⟨less ++ equal.dropLast ++ greater⟩ : SortedList α cmp duplicates).Parts x less equal.dropLast greater :=
  ⟨rfl, h.lt, fun y hy => h.eq y (List.dropLast_subset _ hy), h.gt⟩

/-- Removals until none is found take out all that equals the probe. -/
theorem removeEvery (h : l.Parts x less equal greater) : l.removeEvery x = (⟨less ++ greater⟩, !equal.isEmpty) := by
  induction equal using List.reverseRecOn generalizing l with
  | nil =>
    have hitems : l = ⟨less ++ greater⟩ := by
      cases l
      exact congrArg _ (by simpa using h.items)
    have hnone : l.remove? x = none := by
      rw [h.remove?]
      rfl
    rw [removeEvery_of_eq_none hnone, ← hitems]
    rfl
  | append_singleton newer oldest ih =>
    have hsome : l.remove? x = some (oldest, ⟨less ++ newer ++ greater⟩) := by
      rw [h.remove?]
      simp
    have hrest := h.dropLast
    rw [List.dropLast_concat] at hrest
    rw [removeEvery_of_eq_some hsome, ih hrest]
    simp

/-- The middle part is all that equals the probe. -/
theorem filter_eq (h : l.Parts x less equal greater) : l.items.filter (fun y => cmp y x = .eq) = equal := by
  have hless : less.filter (fun y => cmp y x = .eq) = [] := List.filter_eq_nil_iff.2 fun y hy => by simp [h.lt y hy]
  have hequal : equal.filter (fun y => cmp y x = .eq) = equal := List.filter_eq_self.2 fun y hy => decide_eq_true (h.eq y hy)
  have hgreater : greater.filter (fun y => cmp y x = .eq) = [] := List.filter_eq_nil_iff.2 fun y hy => by simp [h.gt y hy]
  rw [h.items, List.filter_append, List.filter_append, hless, hequal, hgreater, List.nil_append, List.append_nil]

/-- The outer parts are all that does not equal the probe. -/
theorem filter_ne (h : l.Parts x less equal greater) : l.items.filter (fun y => cmp y x ≠ .eq) = less ++ greater := by
  have hless : less.filter (fun y => cmp y x ≠ .eq) = less := List.filter_eq_self.2 fun y hy => by simp [h.lt y hy]
  have hequal : equal.filter (fun y => cmp y x ≠ .eq) = [] := List.filter_eq_nil_iff.2 fun y hy => by simp [h.eq y hy]
  have hgreater : greater.filter (fun y => cmp y x ≠ .eq) = greater := List.filter_eq_self.2 fun y hy => by simp [h.gt y hy]
  rw [h.items, List.filter_append, List.filter_append, hless, hequal, hgreater, List.append_nil]

end Parts

/-! ## Lists in order -/

/-- No element is greater than a later one. -/
def InOrder (l : SortedList α cmp duplicates) : Prop := l.items.Pairwise fun a b => cmp a b ≠ .gt

theorem inOrder_empty : (empty : SortedList α cmp duplicates).InOrder := List.Pairwise.nil

theorem InOrder.sublist {xs ys : List α} (h : (⟨ys⟩ : SortedList α cmp duplicates).InOrder) (hsub : xs.Sublist ys) :
    (⟨xs⟩ : SortedList α cmp duplicates).InOrder := List.Pairwise.sublist hsub h

section Lawful

variable [Std.TransCmp cmp]

/-- Every probe divides a list in order. -/
theorem InOrder.exists_parts (h : l.InOrder) (x : α) : ∃ less equal greater, l.Parts x less equal greater := by
  have hanswers : l.items.Pairwise fun a b => (cmp b x = .lt → cmp a x = .lt) ∧ (cmp a x = .gt → cmp b x = .gt) := by
    refine h.imp ?_
    intro a b hab
    have hle := Ordering.isLE_iff_ne_gt.2 hab
    constructor
    · intro hb
      exact Std.TransCmp.lt_of_isLE_of_lt hle hb
    · intro ha
      exact Std.OrientedCmp.gt_of_lt (Std.TransCmp.lt_of_lt_of_isLE (Std.OrientedCmp.gt_iff_lt.1 ha) hle)
  have hmem : ∀ o, ∀ y ∈ l.items.filter (cmp · x = o), cmp y x = o := fun o y hy => of_decide_eq_true (List.mem_filter.1 hy).2
  exact ⟨_, _, _, eq_filter_append hanswers, hmem .lt, hmem .eq, hmem .gt⟩

/-- An element may stand between those that are not greater and those that are not less. -/
theorem InOrder.insert {before behind : List α} (h : (⟨before ++ behind⟩ : SortedList α cmp duplicates).InOrder)
    (hbefore : ∀ z ∈ before, cmp z x ≠ .gt) (hbehind : ∀ z ∈ behind, cmp z x ≠ .lt) :
    (⟨before ++ x :: behind⟩ : SortedList α cmp duplicates).InOrder := by
  obtain ⟨hb, ha, hacross⟩ := List.pairwise_append.1 h
  have hx : ∀ z ∈ behind, cmp x z ≠ .gt := fun z hz hgt => hbehind z hz (Std.OrientedCmp.gt_iff_lt.1 hgt)
  exact List.pairwise_append.2 ⟨hb, List.pairwise_cons.2 ⟨hx, ha⟩,
    fun z hz => List.forall_mem_cons.2 ⟨hbefore z hz, hacross z hz⟩⟩

/-! ## Removals -/

/-- Removals until none is found keep all that does not equal the probe, where it stands. -/
theorem InOrder.removeEvery (h : l.InOrder) (x : α) :
    l.removeEvery x = (⟨l.items.filter fun y => cmp y x ≠ .eq⟩, l.items.any fun y => cmp y x = .eq) := by
  obtain ⟨less, equal, greater, hparts⟩ := h.exists_parts x
  have hany : (!equal.isEmpty) = l.items.any fun y => cmp y x = .eq := by
    rw [Bool.eq_iff_iff, ← hparts.filter_eq]
    simp
  rw [hparts.removeEvery, hparts.filter_ne, hany]

/-- The removal of several probes keeps all that equals none of them, where it stands. -/
theorem InOrder.removeAll (h : l.InOrder) (xs : List α) :
    l.removeAll xs =
      (⟨l.items.filter fun y => xs.all fun x => cmp y x ≠ .eq⟩, l.items.any fun y => xs.any fun x => cmp y x = .eq) := by
  induction xs generalizing l with
  | nil =>
    have hall : l.items.filter (fun y => ([] : List α).all fun x => cmp y x ≠ .eq) = l.items := List.filter_eq_self.2 fun _ _ => rfl
    rw [hall]
    simp [SortedList.removeAll]
  | cons x xs ih =>
    have hrest := h.sublist (List.filter_sublist (p := fun y => cmp y x ≠ .eq))
    rw [SortedList.removeAll, h.removeEvery x, ih hrest]
    simp only [List.filter_filter, List.any_filter]
    refine Prod.ext (congrArg SortedList.mk (List.filter_congr ?_)) ?_
    · intro y _
      rw [List.all_cons, Bool.and_comm]
    · rw [Bool.eq_iff_iff]
      simp only [Bool.or_eq_true, List.any_eq_true, Bool.and_eq_true, decide_eq_true_eq, List.mem_cons, exists_eq_or_imp]
      grind

/-- Whether or not a list keeps equal elements, as long as it is in order the removal of several probes leaves exactly the elements that
equal none of them, in the order in which they stood, which is an order still. It says that there was something to remove if an element
equals one of the probes, which is if the list gets shorter. A probe may be given twice and may equal nothing. -/
theorem removeAll_eq_filter (l : SortedList α cmp duplicates) (h : l.InOrder) (xs : List α) :
    (l.removeAll xs).1.items = l.items.filter (fun y => ∀ x ∈ xs, cmp y x ≠ .eq) ∧
      (l.removeAll xs).1.InOrder ∧
      ((l.removeAll xs).2 = true ↔ ∃ y ∈ l.items, ∃ x ∈ xs, cmp y x = .eq) ∧
      ((l.removeAll xs).2 = true ↔ (l.removeAll xs).1.size < l.size) := by
  have hspared : (l.removeAll xs).1.items = l.items.filter fun y => ∀ x ∈ xs, cmp y x ≠ .eq := by
    rw [h.removeAll xs]
    refine List.filter_congr ?_
    intro y _
    rw [Bool.eq_iff_iff]
    simp
  have hsome : (l.removeAll xs).2 = true ↔ ∃ y ∈ l.items, ∃ x ∈ xs, cmp y x = .eq := by
    rw [h.removeAll xs]
    simp
  refine ⟨hspared, ?_, hsome, ?_⟩
  · have hrest := h.sublist (List.filter_sublist (p := fun y => ∀ x ∈ xs, cmp y x ≠ .eq))
    unfold InOrder
    rw [hspared]
    exact hrest
  · rw [hsome, size, size, hspared, List.length_filter_lt_length_iff_exists]
    simp

/-- Pairs in the order of their numbers: two probes, one of them given twice, take out all five pairs of their numbers, and a third
takes out none. -/
theorem removeAll_eq_filter_of_pairs :
    let l : SortedList (Nat × Char) (compareOn Prod.fst) .kept :=
      ⟨[(1, 'a'), (3, 'e'), (3, 'd'), (3, 'c'), (4, 'f'), (5, 'h'), (5, 'g')]⟩
    let probes := [(3, 'q'), (7, 'q'), (5, 'q'), (3, 'r')]
    l.InOrder ∧ (l.removeAll probes).1.items = [(1, 'a'), (4, 'f')] ∧ (l.removeAll probes).1.InOrder ∧
      (l.removeAll probes).2 = true := by
  intro l probes
  have hinOrder : l.InOrder := by
    unfold InOrder
    decide
  obtain ⟨hitems, hrest, hsome, -⟩ := removeAll_eq_filter l hinOrder probes
  refine ⟨hinOrder, hitems.trans ?_, hrest, hsome.2 ⟨(3, 'e'), ?_, (3, 'q'), ?_, ?_⟩⟩
  · decide
  · decide
  · decide
  · decide

end Lawful

end Kademlia.SortedList
