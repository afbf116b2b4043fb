import Kademlia.Proofs.Parts

/-!
# Queues of equal elements

The order of a list that keeps equal elements does not say which of these comes first. The searches do: a new element goes before all
that equal it (`Parts.add`), while a search for an element ends at the last one that equals it (`Parts.positionOf`). So the elements
of an order class form a queue: they come in at its front, and the one that is found and taken out is the one that came first.
`run_queues` says this of every list, against the plain list of the same elements in the order in which they came.
-/

namespace Kademlia.SortedList

variable {α : Type} {cmp : α → α → Ordering} {duplicates : Duplicates} {l : SortedList α cmp duplicates} {x y : α}

/-! ## The elements of a class -/

/-- The elements of a class. -/
def ofClass (cmp : α → α → Ordering) (x : α) (xs : List α) : List α := xs.filter fun y => cmp y x = .eq

/-- The elements of a class in two lists are those in the first and then those in the second. -/
@[simp] theorem ofClass_append (x : α) (xs ys : List α) : ofClass cmp x (xs ++ ys) = ofClass cmp x xs ++ ofClass cmp x ys :=
  List.filter_append xs ys

theorem ofClass_cons_of_eq (h : cmp y x = .eq) (ys : List α) : ofClass cmp x (y :: ys) = y :: ofClass cmp x ys :=
  List.filter_cons_of_pos (decide_eq_true h)

theorem ofClass_cons_of_ne (h : cmp y x ≠ .eq) (ys : List α) : ofClass cmp x (y :: ys) = ofClass cmp x ys :=
  List.filter_cons_of_neg (by simpa using h)

/-- A class is empty if no element equals the one it is named by. -/
theorem ofClass_eq_nil_iff {xs : List α} : ofClass cmp x xs = [] ↔ ∀ y ∈ xs, cmp y x ≠ .eq := by
  simp [ofClass]

section Lawful

variable [Std.TransCmp cmp]

/-- Elements of one class are of the same classes. -/
theorem ofClass_congr {z : α} (h : cmp x z = .eq) (xs : List α) : ofClass cmp x xs = ofClass cmp z xs := by
  refine List.filter_congr ?_
  intro y _
  rw [Std.TransCmp.congr_right h]

/-- An element is of its own class. -/
theorem ofClass_cons_self (y : α) (ys : List α) : ofClass cmp y (y :: ys) = y :: ofClass cmp y ys :=
  ofClass_cons_of_eq Std.ReflCmp.compare_self ys

/-- The first element of a list in order is not greater than one of whose class there is an element. -/
theorem InOrder.first_ne_gt {xs : List α} (h : (⟨y :: xs⟩ : SortedList α cmp duplicates).InOrder)
    (hne : ofClass cmp x (y :: xs) ≠ []) : cmp y x ≠ .gt := by
  intro hgt
  refine hne (ofClass_eq_nil_iff.2 (List.forall_mem_cons.2 ⟨by simp [hgt], ?_⟩))
  intro z hz heq
  have hyz := (List.pairwise_cons.1 h).1 z hz
  rw [Std.TransCmp.congr_right heq] at hyz
  exact hyz hgt

/-- Lists in order that have the same elements of each class, in the same order, are the same. -/
theorem InOrder.eq_of_ofClass {xs ys : List α} (hxs : (⟨xs⟩ : SortedList α cmp duplicates).InOrder)
    (hys : (⟨ys⟩ : SortedList α cmp duplicates).InOrder) (h : ∀ x, ofClass cmp x xs = ofClass cmp x ys) : xs = ys := by
  induction xs generalizing ys with
  | nil =>
    cases ys with
    | nil => rfl
    | cons b ys => cases (h b).trans (ofClass_cons_self b ys)
  | cons a xs ih =>
    cases ys with
    | nil => cases (ofClass_cons_self a xs).symm.trans (h a)
    | cons b ys =>
      -- each of the two first elements has one of its class in the other list, so neither is less than the other
      have hab : cmp a b ≠ .gt := hxs.first_ne_gt (by simp [h b, ofClass_cons_self])
      have hba : cmp b a ≠ .gt := hys.first_ne_gt (by simp [← h a, ofClass_cons_self])
      have heq : cmp b a = .eq := by
        cases hcmp : cmp b a with
        | lt => exact absurd (Std.OrientedCmp.gt_of_lt hcmp) hab
        | eq => rfl
        | gt => exact absurd hcmp hba
      have hfirst := h a
      rw [ofClass_cons_self, ofClass_cons_of_eq heq] at hfirst
      obtain ⟨rfl, -⟩ := List.cons.inj hfirst
      refine congrArg (a :: ·) (ih (hxs.sublist (List.sublist_cons_self a xs)) (hys.sublist (List.sublist_cons_self a ys)) ?_)
      intro x
      have htail := h x
      by_cases hx : cmp a x = .eq
      · rw [ofClass_cons_of_eq hx, ofClass_cons_of_eq hx] at htail
        exact (List.cons.inj htail).2
      · rwa [ofClass_cons_of_ne hx, ofClass_cons_of_ne hx] at htail

end Lawful

/-! ## Elements in the order in which they came -/

/-- An edit that brings elements in or takes elements out. -/
def Edit.Moves : Edit α → Prop
  | .update _ _ => False
  | _ => True

namespace Arrivals

/-- The elements after an edit, in the order in which they came, and the answer. Those that come are the newest, and of its class a
removal takes out the oldest; an edit in place moves none. -/
def apply (cmp : α → α → Ordering) (held : List α) : Edit α → List α × Edit.Answer α
  | .add x => (held ++ [x], .changed true)
  | .addAll xs => (held ++ xs, .changed (!xs.isEmpty))
  | .remove x => (held.eraseP fun y => cmp y x = .eq, .element (held.find? fun y => cmp y x = .eq))
  | .removeAll xs =>
    (held.filter fun y => xs.all fun x => cmp y x ≠ .eq, .changed (held.any fun y => xs.any fun x => cmp y x = .eq))
  | .clear => ([], .done)
  | .update _ _ => (held, .element none)

/-- The elements after a sequence of edits. -/
def run (cmp : α → α → Ordering) (held : List α) (edits : List (Edit α)) : List α :=
  edits.foldl (fun held e => (apply cmp held e).1) held

end Arrivals

/-- A list in order that holds the elements of each class as they came, the newest first. -/
structure Queues (l : SortedList α cmp duplicates) (held : List α) : Prop where
  inOrder : l.InOrder
  classes : ∀ x, ofClass cmp x l.items = (ofClass cmp x held).reverse

namespace Queues

variable {held : List α} {before behind : List α}

theorem empty : (SortedList.empty : SortedList α cmp duplicates).Queues [] := ⟨inOrder_empty, fun _ => rfl⟩

/-- Elements that are left out of both lists leave the others in their order. -/
theorem filter (h : l.Queues held) (p : α → Bool) :
    (⟨l.items.filter p⟩ : SortedList α cmp duplicates).Queues (held.filter p) := by
  refine ⟨h.inOrder.sublist List.filter_sublist, ?_⟩
  intro x
  have hcomm : ∀ xs : List α, ofClass cmp x (xs.filter p) = (ofClass cmp x xs).filter p := by
    intro xs
    simp only [ofClass, List.filter_filter, Bool.and_comm]
  rw [hcomm, hcomm, h.classes, List.filter_reverse]

variable [Std.TransCmp cmp]

/-- The list has the elements that came and did not go. -/
theorem mem_iff (h : l.Queues held) : y ∈ l.items ↔ y ∈ held := by
  have hclass : ∀ xs : List α, y ∈ ofClass cmp y xs ↔ y ∈ xs := by
    intro xs
    simp [ofClass, Std.ReflCmp.compare_self]
  rw [← hclass l.items, h.classes, List.mem_reverse, hclass]

/-- A new element stands before those of its class. -/
theorem insert (h : (⟨before ++ behind⟩ : SortedList α cmp duplicates).Queues held) (hbefore : ∀ z ∈ before, cmp z x = .lt)
    (hbehind : ∀ z ∈ behind, cmp z x ≠ .lt) :
    (⟨before ++ x :: behind⟩ : SortedList α cmp duplicates).Queues (held ++ [x]) := by
  have hnotGreater : ∀ z ∈ before, cmp z x ≠ .gt := by
    intro z hz
    simp [hbefore z hz]
  refine ⟨h.inOrder.insert hnotGreater hbehind, ?_⟩
  intro z
  have hold := h.classes z
  simp only [ofClass_append] at hold ⊢
  by_cases hxz : cmp x z = .eq
  · have hnone : ofClass cmp z before = [] := by
      rw [← ofClass_congr hxz, ofClass_eq_nil_iff]
      intro y hy
      simp [hbefore y hy]
    rw [hnone, List.nil_append] at hold ⊢
    rw [ofClass_cons_of_eq hxz, ofClass_cons_of_eq hxz, hold]
    simp [ofClass]
  · rw [ofClass_cons_of_ne hxz, ofClass_cons_of_ne hxz, hold]
    simp [ofClass]

/-- The last element of a class in the list is its first in the order in which they came, and both may go. -/
theorem erase {older newer : List α} (h : (⟨before ++ y :: behind⟩ : SortedList α cmp duplicates).Queues (older ++ y :: newer))
    (hbehind : ∀ z ∈ behind, cmp z y ≠ .eq) (holder : ∀ z ∈ older, cmp z y ≠ .eq) :
    (⟨before ++ behind⟩ : SortedList α cmp duplicates).Queues (older ++ newer) := by
  refine ⟨h.inOrder.sublist (List.Sublist.append_left (List.sublist_cons_self y behind) before), ?_⟩
  intro z
  have hold := h.classes z
  simp only [ofClass_append] at hold ⊢
  by_cases hyz : cmp y z = .eq
  · have hself : cmp y y = .eq := Std.ReflCmp.compare_self
    have hnone := ofClass_eq_nil_iff.2 hbehind
    have hnone' := ofClass_eq_nil_iff.2 holder
    simp only [← ofClass_congr hyz] at hold ⊢
    rw [ofClass_cons_of_eq hself, ofClass_cons_of_eq hself, hnone, hnone', List.nil_append, List.reverse_cons] at hold
    rw [hnone, hnone', List.append_nil, List.nil_append]
    exact List.append_cancel_right hold
  · rwa [ofClass_cons_of_ne hyz, ofClass_cons_of_ne hyz] at hold

/-- A list seen from a probe: of the elements of its class it finds and takes out the one that came first, or there is none. -/
theorem probe (h : l.Queues held) (x : α) :
    (∃ y older newer before behind, held = older ++ y :: newer ∧ (∀ z ∈ older, cmp z x ≠ .eq) ∧ cmp y x = .eq ∧
        l.items = before ++ y :: behind ∧ (∀ z ∈ before, cmp z x ≠ .gt) ∧ (∀ z ∈ behind, cmp z x = .gt) ∧
        l.positionOf x = .found before.length ∧ l.get? x = some y ∧ l.remove? x = some (y, ⟨before ++ behind⟩)) ∨
      (∀ z ∈ held, cmp z x ≠ .eq) ∧ l.positionOf x = .insertAt (l.items.countP fun y => cmp y x = .lt) ∧ l.get? x = none ∧
        l.remove? x = none := by
  obtain ⟨less, equal, greater, hparts⟩ := h.inOrder.exists_parts x
  have hequal : equal = (ofClass cmp x held).reverse := by
    rw [← h.classes, ← hparts.filter_eq]
    rfl
  cases hfind : held.find? fun y => cmp y x = .eq with
  | none =>
    have hnone : ∀ z ∈ held, cmp z x ≠ .eq := by simpa using hfind
    rw [ofClass_eq_nil_iff.2 hnone, List.reverse_nil] at hequal
    subst hequal
    have hcount : l.items.countP (fun y => cmp y x = .lt) = less.length := by
      rw [hparts.items, List.append_nil]
      exact countP_append_eq_length (by simpa using hparts.lt) fun z hz => by simp [hparts.gt z hz]
    refine Or.inr ⟨hnone, ?_, hparts.get?, hparts.remove?⟩
    rw [hcount]
    exact hparts.positionOf
  | some y =>
    obtain ⟨hy, older, newer, rfl, holder⟩ := List.find?_eq_some_iff_append.1 hfind
    have heq : cmp y x = .eq := of_decide_eq_true hy
    have hne : ∀ z ∈ older, cmp z x ≠ .eq := by simpa using holder
    rw [ofClass_append, ofClass_eq_nil_iff.2 hne, ofClass_cons_of_eq heq, List.nil_append, List.reverse_cons] at hequal
    subst hequal
    refine Or.inl ⟨y, older, newer, less ++ (ofClass cmp x newer).reverse, greater, rfl, hne, heq, ?_, ?_, hparts.gt, ?_, ?_, ?_⟩
    · rw [hparts.items]
      simp
    · refine List.forall_mem_append.2 ⟨?_, ?_⟩
      · intro z hz
        simp [hparts.lt z hz]
      · intro z hz
        simp [hparts.eq z (List.mem_append_left _ hz)]
    · rw [hparts.positionOf]
      simp
    · rw [hparts.get?, List.getLast?_concat]
    · rw [hparts.remove?, List.getLast?_concat, List.dropLast_concat]
      rfl

/-! ## Edits -/

/-- An added element is the newest of its class, and it is always added. -/
theorem add {l : SortedList α cmp .kept} (h : l.Queues held) (x : α) :
    (l.add x).1.Queues (held ++ [x]) ∧ (l.add x).2 = true := by
  obtain ⟨less, equal, greater, hparts⟩ := h.inOrder.exists_parts x
  rw [hparts.add]
  obtain ⟨items⟩ := l
  obtain rfl : items = less ++ (equal ++ greater) := hparts.items.trans (List.append_assoc _ _ _)
  refine ⟨h.insert hparts.lt (List.forall_mem_append.2 ⟨?_, ?_⟩), rfl⟩
  · intro z hz
    simp [hparts.eq z hz]
  · intro z hz
    simp [hparts.gt z hz]

/-- Elements added one after the other come in their order; something was added if there was any. -/
theorem addAll {l : SortedList α cmp .kept} (h : l.Queues held) (xs : List α) :
    (l.addAll xs).1.Queues (held ++ xs) ∧ (l.addAll xs).2 = !xs.isEmpty := by
  induction xs generalizing l held with
  | nil =>
    rw [List.append_nil]
    exact ⟨h, rfl⟩
  | cons x xs ih =>
    obtain ⟨hfirst, hadded⟩ := h.add x
    have hrest := (ih hfirst).1
    rw [List.append_assoc, List.singleton_append] at hrest
    exact ⟨hrest, by simp [SortedList.addAll, hadded]⟩

/-- A removal takes out the element of the class that came first. -/
theorem remove (h : l.Queues held) (x : α) :
    (l.apply (.remove x)).1.Queues (held.eraseP fun y => cmp y x = .eq) ∧
      (l.apply (.remove x)).2 = .element (held.find? fun y => cmp y x = .eq) := by
  rcases h.probe x with
    ⟨y, older, newer, before, behind, rfl, holder, heq, hitems, -, hbehind, -, -, hremove⟩ | ⟨hnone, -, -, hremove⟩
  · obtain ⟨items⟩ := l
    subst hitems
    have holder' : ∀ z ∈ older, ¬decide (cmp z x = .eq) = true := by simpa using holder
    have hfind : older.find? (fun y => cmp y x = .eq) = none := List.find?_eq_none.2 holder'
    have herase : (older ++ y :: newer).eraseP (fun y => cmp y x = .eq) = older ++ newer := by
      rw [List.eraseP_append_right _ holder', List.eraseP_cons, heq]
      rfl
    have hfirst : (older ++ y :: newer).find? (fun y => cmp y x = .eq) = some y := by
      rw [List.find?_append, hfind, List.find?_cons, heq]
      rfl
    simp only [SortedList.apply, hremove, herase, hfirst]
    refine ⟨h.erase ?_ ?_, rfl⟩
    · intro z hz
      rw [Std.TransCmp.congr_right heq, hbehind z hz]
      decide
    · intro z hz
      rw [Std.TransCmp.congr_right heq]
      exact holder z hz
  · have hnone' : ∀ z ∈ held, ¬decide (cmp z x = .eq) = true := by simpa using hnone
    rw [List.eraseP_of_forall_not hnone', List.find?_eq_none.2 hnone']
    simp only [SortedList.apply, hremove]
    exact ⟨h, rfl⟩

/-- Each edit that moves elements is that of the elements in the order in which they came. -/
theorem apply {l : SortedList α cmp .kept} (h : l.Queues held) {e : Edit α} (he : e.Moves) :
    (l.apply e).1.Queues (Arrivals.apply cmp held e).1 ∧ (l.apply e).2 = (Arrivals.apply cmp held e).2 := by
  cases e with
  | add x =>
    obtain ⟨hadded, hanswer⟩ := h.add x
    exact ⟨hadded, congrArg Edit.Answer.changed hanswer⟩
  | addAll xs =>
    obtain ⟨hadded, hanswer⟩ := h.addAll xs
    exact ⟨hadded, congrArg Edit.Answer.changed hanswer⟩
  | remove x => exact h.remove x
  | removeAll xs =>
    have hany : (l.items.any fun y => xs.any fun x => cmp y x = .eq) = held.any fun y => xs.any fun x => cmp y x = .eq := by
      rw [Bool.eq_iff_iff, List.any_eq_true, List.any_eq_true]
      exact exists_congr fun y => and_congr_left fun _ => h.mem_iff
    simp only [SortedList.apply, Arrivals.apply, h.inOrder.removeAll xs, hany, and_true]
    exact h.filter _
  | clear => exact ⟨Queues.empty, rfl⟩
  | update f g => cases he

/-- After a sequence of edits that move elements the classes still stand as their elements came. -/
theorem run {l : SortedList α cmp .kept} (h : l.Queues held) {edits : List (Edit α)} (hmoves : ∀ e ∈ edits, e.Moves) :
    (l.run edits).Queues (Arrivals.run cmp held edits) := by
  induction edits generalizing l held with
  | nil => exact h
  | cons e es ih =>
    obtain ⟨he, hes⟩ := List.forall_mem_cons.1 hmoves
    exact ih (h.apply he).1 hes

end Queues

/-- Under a comparison that is a total preorder, a list that keeps equal elements is in order after every sequence of edits that bring
elements in or take elements out, and each of its order classes is a queue. With the elements in the order in which they came, a class
stands in the list the newest first, which determines the list. A new element is always added, behind what is less and directly
before all that equals it. A probe is found at, gets and takes out the element of its class that came first, which is the last one in
the list, or there is none of its class. -/
theorem run_queues [Std.TransCmp cmp] (edits : List (Edit α)) (h : ∀ e ∈ edits, e.Moves) :
    let l := (empty : SortedList α cmp .kept).run edits
    let held := Arrivals.run cmp [] edits
    l.InOrder ∧
      (∀ x, ofClass cmp x l.items = (ofClass cmp x held).reverse) ∧
      (∀ l' : SortedList α cmp .kept, l'.InOrder → (∀ x, ofClass cmp x l'.items = (ofClass cmp x held).reverse) → l' = l) ∧
      (∀ x, ∃ less rest, l.items = less ++ rest ∧ (∀ z ∈ less, cmp z x = .lt) ∧ (∀ z ∈ rest, cmp z x ≠ .lt) ∧
        l.add x = (⟨less ++ x :: rest⟩, true)) ∧
      (∀ x,
        (∃ y older newer before behind, held = older ++ y :: newer ∧ (∀ z ∈ older, cmp z x ≠ .eq) ∧ cmp y x = .eq ∧
          l.items = before ++ y :: behind ∧ (∀ z ∈ before, cmp z x ≠ .gt) ∧ (∀ z ∈ behind, cmp z x = .gt) ∧
          l.positionOf x = .found before.length ∧ l.get? x = some y ∧ l.remove? x = some (y, ⟨before ++ behind⟩)) ∨
        (∀ z ∈ held, cmp z x ≠ .eq) ∧ l.positionOf x = .insertAt (l.items.countP fun y => cmp y x = .lt) ∧ l.get? x = none ∧
          l.remove? x = none) ∧
      ∀ e : Edit α, e.Moves → (l.apply e).2 = (Arrivals.apply cmp held e).2 := by
  intro l held
  have hl : l.Queues held := Queues.empty.run h
  refine ⟨hl.inOrder, hl.classes, ?_, ?_, hl.probe, ?_⟩
  · intro l' hl' hclasses
    have hitems := hl'.eq_of_ofClass hl.inOrder fun x => (hclasses x).trans (hl.classes x).symm
    cases l'
    exact congrArg SortedList.mk hitems
  · intro x
    obtain ⟨less, equal, greater, hparts⟩ := hl.inOrder.exists_parts x
    refine ⟨less, equal ++ greater, hparts.items.trans (List.append_assoc _ _ _), hparts.lt, ?_, hparts.add⟩
    exact List.forall_mem_append.2 ⟨fun z hz => by simp [hparts.eq z hz], fun z hz => by simp [hparts.gt z hz]⟩
  · intro e he
    exact (hl.apply he).2

/-- Pairs in the order of their numbers: of four with one number the first that came is taken out, although it stands last, and the
second is found from then on. -/
theorem run_queues_of_pairs :
    let l : SortedList (Nat × Char) (compareOn Prod.fst) .kept := empty
    let edits : List (Edit (Nat × Char)) := [.addAll [(5, 'a'), (3, 'b'), (5, 'c')], .add (5, 'd'), .remove (5, 'q'), .add (5, 'e')]
    (∀ e ∈ edits, e.Moves) ∧ (l.run edits).items = [(3, 'b'), (5, 'e'), (5, 'd'), (5, 'c')] ∧
      Arrivals.run (compareOn Prod.fst) [] edits = [(3, 'b'), (5, 'c'), (5, 'd'), (5, 'e')] ∧
      (l.run edits).InOrder ∧ ((l.run edits).apply (.remove (5, 'q'))).2 = .element (some (5, 'c')) := by
  intro l edits
  have hmoves : ∀ e ∈ edits, e.Moves := by simp [edits, Edit.Moves]
  have hitems : (l.run edits).items = [(3, 'b'), (5, 'e'), (5, 'd'), (5, 'c')] := by decide +kernel
  have hheld : Arrivals.run (compareOn Prod.fst) [] edits = [(3, 'b'), (5, 'c'), (5, 'd'), (5, 'e')] := by decide +kernel
  obtain ⟨hinOrder, -, -, -, -, hanswers⟩ := @run_queues _ (compareOn Prod.fst) _ edits hmoves
  refine ⟨hmoves, hitems, hheld, hinOrder, ?_⟩
  rw [hanswers (.remove (5, 'q')) trivial, hheld]
  rfl

end Kademlia.SortedList
