import Kademlia.SortedList

/-!
# Where a search ends

A search is only asked about sequences that are in order: first what lies before what is sought, then what equals it, then what
lies behind it, each part possibly empty. On such a sequence the search ends at the last of the equal elements, or where one would
stand. From this follows what each operation of a sorted list does to its items, given the item it meets or the gap it falls into.
-/

namespace Kademlia

namespace Search

/-- The search narrows down to the last index that is not behind what is sought, if its range holds one. -/
theorem narrow_eq (order : Nat → Ordering) (base size stop : Nat) (hsize : 0 < size) (hstop : stop ≤ base + size)
    (horder : ∀ i, base ≤ i → i < base + size → (order i = .gt ↔ stop ≤ i)) :
    narrow order base size = max base (stop - 1) := by
  fun_induction narrow order base size with
  | case1 base size hlt hgt ih =>
    have hmid := (horder (base + size / 2) (by omega) (by omega)).1 hgt
    exact ih (by omega) (by omega) fun i hi hi' => horder i hi (by omega)
  | case2 base size hlt hgt ih =>
    have hmid : base + size / 2 < stop :=
      Nat.lt_of_not_le fun hge => hgt ((horder _ (by omega) (by omega)).2 hge)
    rw [ih (by omega) (by omega) fun i hi hi' => horder i (by omega) (by omega)]
    omega
  | case3 base size hlt => omega

/-- On a sequence in order, from `first` up to `stop` what equals the sought, the search ends at the last equal element, or where
one would stand. -/
theorem position_eq (order : Nat → Ordering) (first stop size : Nat) (hfirst : first ≤ stop) (hstop : stop ≤ size)
    (hlt : ∀ i < first, order i = .lt) (heq : ∀ i, first ≤ i → i < stop → order i = .eq)
    (hgt : ∀ i, stop ≤ i → i < size → order i = .gt) :
    position order size = if first < stop then .found (stop - 1) else .insertAt first := by
  unfold position
  by_cases hsize : size = 0
  · rw [if_pos hsize, if_neg (by omega), show first = 0 by omega]
  · have hbase : narrow order 0 size = stop - 1 := by
      rw [narrow_eq order 0 size stop (by omega) (by omega), Nat.zero_max]
      intro i _ hi
      constructor
      · intro hi'
        apply Nat.le_of_not_lt
        intro hge
        by_cases hf : i < first
        · rw [hlt i hf] at hi'
          cases hi'
        · rw [heq i (by omega) (by omega)] at hi'
          cases hi'
      · intro hi'
        exact hgt i hi' (by omega)
    rw [if_neg hsize, hbase]
    by_cases hne : first < stop
    · simp only [if_pos hne, heq (stop - 1) (by omega) (by omega)]
    · by_cases h0 : stop = 0
      · simp only [h0, Nat.zero_sub, hgt 0 (by omega) (by omega), Nat.not_lt_zero, if_false]
        rw [show first = 0 by omega]
      · simp only [hlt (stop - 1) (by omega), if_neg hne]
        rw [show stop - 1 + 1 = first by omega]

end Search

namespace SortedList

variable {α : Type} {cmp : α → α → Ordering} {duplicates : Duplicates} {l : SortedList α cmp duplicates}

/-! ## Positions -/

/-- On items in three parts, before, equal and behind, the search ends at the last equal item, or between the two other parts. -/
theorem positionBy_parts {f : α → Ordering} {before equal behind : List α} (hitems : l.items = before ++ equal ++ behind)
    (hlt : ∀ y ∈ before, f y = .lt) (heq : ∀ y ∈ equal, f y = .eq) (hgt : ∀ y ∈ behind, f y = .gt) :
    l.positionBy f =
      if 0 < equal.length then .found (before.length + equal.length - 1) else .insertAt before.length := by
  have hlen : l.size = before.length + equal.length + behind.length := by
    rw [size, hitems, List.length_append, List.length_append]
  unfold positionBy
  rw [Search.position_eq _ before.length (before.length + equal.length) l.size (by omega) (by omega)]
  · simp only [Nat.lt_add_right_iff_pos]
  · intro i hi
    rw [hitems, List.append_assoc, List.getElem?_append_left hi, List.getElem?_eq_getElem hi]
    exact hlt _ (List.getElem_mem hi)
  · intro i hi hi'
    rw [hitems, List.append_assoc, List.getElem?_append_right hi, List.getElem?_append_left (by omega),
      List.getElem?_eq_getElem (by omega)]
    exact heq _ (List.getElem_mem (by omega))
  · intro i hi hi'
    rw [hitems, List.getElem?_append_right (by rw [List.length_append]; omega),
      List.getElem?_eq_getElem (by rw [List.length_append]; omega)]
    exact hgt _ (List.getElem_mem (by rw [List.length_append]; omega))

/-- A search meets an element that stands behind those that are less and before those that are greater. -/
theorem positionBy_found {f : α → Ordering} {before behind : List α} {x : α} (hitems : l.items = before ++ x :: behind)
    (hlt : ∀ y ∈ before, f y = .lt) (heq : f x = .eq) (hgt : ∀ y ∈ behind, f y = .gt) :
    l.positionBy f = .found before.length := by
  have hparts : l.items = before ++ [x] ++ behind := by simpa using hitems
  have h := positionBy_parts hparts hlt (by simpa using heq) hgt
  simpa using h

/-- A search falls between the elements that are less and those that are greater if no element is equal. -/
theorem positionBy_gap {f : α → Ordering} {before behind : List α} (hitems : l.items = before ++ behind)
    (hlt : ∀ y ∈ before, f y = .lt) (hgt : ∀ y ∈ behind, f y = .gt) : l.positionBy f = .insertAt before.length := by
  have hparts : l.items = before ++ [] ++ behind := by simpa using hitems
  have h := positionBy_parts hparts hlt (by simp) hgt
  simpa using h

/-- Questions that every item answers alike are one search. -/
theorem positionBy_congr {f g : α → Ordering} (h : ∀ y ∈ l.items, f y = g y) : l.positionBy f = l.positionBy g := by
  have horder : (fun i : Nat => (l.items[i]?).elim .gt f) = fun i => (l.items[i]?).elim .gt g := by
    funext i
    cases hi : l.items[i]? with
    | none => rfl
    | some y => exact h y (List.mem_of_getElem? hi)
  unfold positionBy
  rw [horder]

/-- Two questions that the elements answer alike find the same element. -/
theorem getBy?_congr {f g : α → Ordering} (h : ∀ y ∈ l.items, f y = g y) : l.getBy? f = l.getBy? g := by
  unfold getBy?
  rw [positionBy_congr h]

/-! ## Operations by the position found -/

section Found

variable {f : α → Ordering} {x : α} {i : Nat}

theorem getBy?_of_found (h : l.positionBy f = .found i) : l.getBy? f = l.items[i]? := by
  unfold getBy?
  rw [h]

theorem getBy?_of_insertAt (h : l.positionBy f = .insertAt i) : l.getBy? f = none := by
  unfold getBy?
  rw [h]

/-- A change is made at the index that the search finds. -/
theorem updateBy?_of_found (g : α → α) (h : l.positionBy f = .found i) :
    l.updateBy? f g = (l.items[i]?).map fun y => (y, ⟨l.items.modify i g⟩) := by
  unfold updateBy? updateWith?
  rw [h]

theorem updateBy?_of_insertAt (g : α → α) (h : l.positionBy f = .insertAt i) : l.updateBy? f g = none := by
  unfold updateBy? updateWith?
  rw [h]

/-- A removal takes out the element at the index that the search finds. -/
theorem remove?_of_found (h : l.positionOf x = .found i) :
    l.remove? x = (l.items[i]?).map fun y => (y, ⟨l.items.eraseIdx i⟩) := by
  unfold remove?
  rw [h]

theorem remove?_of_insertAt (h : l.positionOf x = .insertAt i) : l.remove? x = none := by
  unfold remove?
  rw [h]

/-- An element that has no equal goes in at the index of the search. -/
theorem add_of_insertAt (h : l.positionOf x = .insertAt i) : l.add x = (⟨l.items.insertIdx i x⟩, true) := by
  unfold add
  rw [h]

/-- A list that refuses duplicates stays as it is if the element has an equal. -/
theorem add_of_found_refused {l : SortedList α cmp .refused} (h : l.positionOf x = .found i) : l.add x = (l, false) := by
  unfold add
  rw [h]

/-- A list that keeps duplicates puts the element before all that equal it. -/
theorem add_of_found_kept {l : SortedList α cmp .kept} (h : l.positionOf x = .found i) :
    l.add x = (⟨l.items.insertIdx (l.firstNotLess x) x⟩, true) := by
  unfold add
  rw [h]

/-- Whatever the comparison, a list that refuses duplicates refuses just what it finds an element for. -/
theorem add_eq_false_iff {l : SortedList α cmp .refused} : (l.add x).2 = false ↔ ∃ y, l.get? x = some y := by
  cases hpos : l.positionOf x with
  | found i =>
    obtain ⟨y, hy, -⟩ := getElem?_of_positionBy hpos
    have hget : l.get? x = some y := (getBy?_of_found hpos).trans hy
    simp [add_of_found_refused hpos, hget]
  | insertAt i =>
    have hget : l.get? x = none := getBy?_of_insertAt hpos
    simp [add_of_insertAt hpos, hget]

end Found

/-! ## Operations at an item that is met -/

/-- A change at the length of what stands before an element changes this element. -/
theorem modify_length_append (g : α → α) (before behind : List α) (x : α) :
    (before ++ x :: behind).modify before.length g = before ++ g x :: behind := by
  induction before with
  | nil => rfl
  | cons y before ih => rw [List.cons_append, List.length_cons, List.modify_succ_cons, ih, List.cons_append]

theorem insertIdx_length_append (before behind : List α) (x : α) :
    (before ++ behind).insertIdx before.length x = before ++ x :: behind := by
  induction before with
  | nil => rfl
  | cons y before ih => rw [List.cons_append, List.length_cons, List.insertIdx_succ_cons, ih, List.cons_append]

section Met

variable {f : α → Ordering} {before behind : List α} {x : α}

/-- A search gives the item that it meets. -/
theorem getBy?_met (hitems : l.items = before ++ x :: behind) (hlt : ∀ y ∈ before, f y = .lt) (heq : f x = .eq)
    (hgt : ∀ y ∈ behind, f y = .gt) : l.getBy? f = some x := by
  rw [getBy?_of_found (positionBy_found hitems hlt heq hgt), hitems]
  simp

/-- The item met is changed where it stands. -/
theorem updateBy?_met (g : α → α) (hitems : l.items = before ++ x :: behind) (hlt : ∀ y ∈ before, f y = .lt)
    (heq : f x = .eq) (hgt : ∀ y ∈ behind, f y = .gt) :
    l.updateBy? f g = some (x, ⟨before ++ g x :: behind⟩) := by
  rw [updateBy?_of_found g (positionBy_found hitems hlt heq hgt), hitems]
  simp only [List.getElem?_append_right (Nat.le_refl _), Nat.sub_self, List.getElem?_cons_zero, Option.map_some,
    modify_length_append]

/-- An element that meets its equal is refused. -/
theorem add_met {l : SortedList α cmp .refused} (hitems : l.items = before ++ x :: behind) (y : α)
    (hlt : ∀ z ∈ before, cmp z y = .lt) (heq : cmp x y = .eq) (hgt : ∀ z ∈ behind, cmp z y = .gt) :
    l.add y = (l, false) := add_of_found_refused (positionBy_found hitems hlt heq hgt)

/-- The item that is met is taken out. -/
theorem remove?_met (hitems : l.items = before ++ x :: behind) (y : α) (hlt : ∀ z ∈ before, cmp z y = .lt)
    (heq : cmp x y = .eq) (hgt : ∀ z ∈ behind, cmp z y = .gt) : l.remove? y = some (x, ⟨before ++ behind⟩) := by
  rw [remove?_of_found (positionBy_found hitems hlt heq hgt), hitems]
  simp [List.eraseIdx_append_of_length_le]

/-- Whatever the question, an edit in place exchanges the item that a search finds, and no other. -/
theorem updateBy?_of_getBy?_eq_some (g : α → α) (h : l.getBy? f = some x) :
    ∃ before behind, l.items = before ++ x :: behind ∧ l.updateBy? f g = some (x, ⟨before ++ g x :: behind⟩) := by
  cases hpos : l.positionBy f with
  | insertAt i =>
    rw [getBy?_of_insertAt hpos] at h
    cases h
  | found i =>
    rw [getBy?_of_found hpos] at h
    obtain ⟨hlt, hx⟩ := List.getElem?_eq_some_iff.1 h
    have hsplit : l.items = l.items.take i ++ x :: l.items.drop (i + 1) := by
      rw [← hx, ← List.drop_eq_getElem_cons hlt, List.take_append_drop]
    refine ⟨_, _, hsplit, ?_⟩
    rw [updateBy?_of_found g hpos, h, Option.map_some, List.modify_eq_take_cons_drop hlt, hx]

/-- Nothing is changed if a search finds nothing, whatever the question. -/
theorem updateBy?_of_getBy?_eq_none (g : α → α) (h : l.getBy? f = none) : l.updateBy? f g = none := by
  cases hpos : l.positionBy f with
  | insertAt i => exact updateBy?_of_insertAt g hpos
  | found i =>
    rw [getBy?_of_found hpos] at h
    rw [updateBy?_of_found g hpos, h, Option.map_none]

end Met

/-! ## Operations at a gap -/

section Gap

variable {f : α → Ordering} {before behind : List α}

/-- A search that falls into a gap gives nothing. -/
theorem getBy?_gap (hitems : l.items = before ++ behind) (hlt : ∀ y ∈ before, f y = .lt)
    (hgt : ∀ y ∈ behind, f y = .gt) : l.getBy? f = none := getBy?_of_insertAt (positionBy_gap hitems hlt hgt)

/-- A search that falls into a gap changes nothing. -/
theorem updateBy?_gap (g : α → α) (hitems : l.items = before ++ behind) (hlt : ∀ y ∈ before, f y = .lt)
    (hgt : ∀ y ∈ behind, f y = .gt) : l.updateBy? f g = none :=
  updateBy?_of_getBy?_eq_none g (getBy?_gap hitems hlt hgt)

/-- A probe that falls into a gap takes nothing out. -/
theorem remove?_gap (hitems : l.items = before ++ behind) (y : α) (hlt : ∀ z ∈ before, cmp z y = .lt)
    (hgt : ∀ z ∈ behind, cmp z y = .gt) : l.remove? y = none := remove?_of_insertAt (positionBy_gap hitems hlt hgt)

/-- A new element goes into the gap, whether or not duplicates are kept. -/
theorem add_gap (y : α) (hitems : l.items = before ++ behind) (hlt : ∀ z ∈ before, cmp z y = .lt)
    (hgt : ∀ z ∈ behind, cmp z y = .gt) : l.add y = (⟨before ++ y :: behind⟩, true) := by
  rw [add_of_insertAt (positionBy_gap hitems hlt hgt), hitems, insertIdx_length_append]

end Gap

/-! ## Removals until none is found -/

section Repeated

variable {x y : α} {rest : SortedList α cmp duplicates}

/-- A removal of every equal goes on after each one that was found. -/
theorem removeEvery_of_eq_some (h : l.remove? x = some (y, rest)) : l.removeEvery x = ((rest.removeEvery x).1, true) := by
  rw [removeEvery]
  split
  · rename_i htaken
    rw [h] at htaken
    cases htaken
    rfl
  · rename_i hnone
    rw [h] at hnone
    cases hnone

/-- A removal of every equal ends when none is found. -/
theorem removeEvery_of_eq_none (h : l.remove? x = none) : l.removeEvery x = (l, false) := by
  rw [removeEvery]
  split
  · rename_i hsome
    rw [h] at hsome
    cases hsome
  · rfl

end Repeated

end SortedList

/-! ## Items in order -/

/-- In a strict order, where an item that is not behind the sought has only items before the sought in front of it, the sought
meets one item or falls into one gap. -/
theorem met_or_gap {α : Type} {f : α → Ordering} {xs : List α} (h : xs.Pairwise fun a b => f b ≠ .gt → f a = .lt) :
    (∃ before x behind, xs = before ++ x :: behind ∧ (∀ y ∈ before, f y = .lt) ∧ f x = .eq ∧ ∀ y ∈ behind, f y = .gt) ∨
      ∃ before behind, xs = before ++ behind ∧ (∀ y ∈ before, f y = .lt) ∧ ∀ y ∈ behind, f y = .gt := by
  induction xs with
  | nil => exact Or.inr ⟨[], [], rfl, by simp, by simp⟩
  | cons a xs ih =>
    obtain ⟨ha, hxs⟩ := List.pairwise_cons.1 h
    rcases ih hxs with ⟨before, x, behind, rfl, hlt, heq, hgt⟩ | ⟨before, behind, rfl, hlt, hgt⟩
    · have hfa : f a = .lt := ha x (by simp) (by simp [heq])
      exact Or.inl ⟨a :: before, x, behind, rfl, List.forall_mem_cons.2 ⟨hfa, hlt⟩, heq, hgt⟩
    · cases before with
      | cons y before =>
        have hfa : f a = .lt := ha y (by simp) (by simp [hlt y (by simp)])
        exact Or.inr ⟨a :: y :: before, behind, rfl, List.forall_mem_cons.2 ⟨hfa, hlt⟩, hgt⟩
      | nil =>
        cases hfa : f a with
        | lt => exact Or.inr ⟨[a], behind, rfl, by simpa using hfa, hgt⟩
        | eq => exact Or.inl ⟨[], a, behind, rfl, by simp, hfa, hgt⟩
        | gt => exact Or.inr ⟨[], a :: behind, rfl, by simp, List.forall_mem_cons.2 ⟨hfa, hgt⟩⟩

/-- In a strict order a search finds the item that equals the sought, if there is one. -/
theorem SortedList.getBy?_eq_some_iff {α : Type} {cmp : α → α → Ordering} {duplicates : Duplicates}
    {l : SortedList α cmp duplicates} {f : α → Ordering} {x : α}
    (h : l.items.Pairwise fun a b => f b ≠ .gt → f a = .lt) : l.getBy? f = some x ↔ x ∈ l.items ∧ f x = .eq := by
  constructor
  · intro hfound
    exact getBy?_eq_some hfound
  · rintro ⟨hmem, hx⟩
    rcases met_or_gap h with ⟨before, y, behind, hitems, hlt, heq, hgt⟩ | ⟨before, behind, hitems, hlt, hgt⟩
    · rw [getBy?_met hitems hlt heq hgt]
      rw [hitems, List.mem_append, List.mem_cons] at hmem
      rcases hmem with hbefore | rfl | hbehind
      · cases (hlt x hbefore).symm.trans hx
      · rfl
      · cases (hgt x hbehind).symm.trans hx
    · rw [hitems, List.mem_append] at hmem
      rcases hmem with hbefore | hbehind
      · cases (hlt x hbefore).symm.trans hx
      · cases (hgt x hbehind).symm.trans hx

/-- Elements that answer a question in order are those before the sought, those that equal it, and those behind it. -/
theorem eq_filter_append {α : Type} {f : α → Ordering} {xs : List α}
    (h : xs.Pairwise fun a b => (f b = .lt → f a = .lt) ∧ (f a = .gt → f b = .gt)) :
    xs = xs.filter (f · = .lt) ++ xs.filter (f · = .eq) ++ xs.filter (f · = .gt) := by
  induction xs with
  | nil => rfl
  | cons a xs ih =>
    obtain ⟨ha, hxs⟩ := List.pairwise_cons.1 h
    have hrest := ih hxs
    have hnone : f a ≠ .lt → xs.filter (f · = .lt) = [] := fun hne =>
      List.filter_eq_nil_iff.2 fun b hb hlt => hne ((ha b hb).1 (of_decide_eq_true hlt))
    cases hfa : f a with
    | lt => simpa [hfa] using hrest
    | eq =>
      rw [hnone (by simp [hfa])] at hrest
      simpa [hfa, hnone] using hrest
    | gt =>
      have hall : xs.filter (f · = .gt) = xs := List.filter_eq_self.2 fun b hb => decide_eq_true ((ha b hb).2 hfa)
      have hnoneEq : xs.filter (f · = .eq) = [] := List.filter_eq_nil_iff.2 fun b hb heq => by
        rw [(ha b hb).2 hfa] at heq
        cases of_decide_eq_true heq
      simp [hfa, hnone, hall, hnoneEq]

/-- A count over two parts of which exactly the first satisfies the predicate. -/
theorem countP_append_eq_length {α : Type} {p : α → Bool} {xs ys : List α} (hxs : ∀ x ∈ xs, p x = true)
    (hys : ∀ y ∈ ys, p y = false) : (xs ++ ys).countP p = xs.length := by
  rw [List.countP_append, List.countP_eq_length.2 hxs, List.countP_eq_zero.2 fun y hy => by simp [hys y hy], Nat.add_zero]

end Kademlia
