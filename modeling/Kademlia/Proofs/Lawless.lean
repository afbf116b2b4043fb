import Kademlia.Proofs.Edits
import Mathlib.Data.List.Perm.Basic

/-!
# Lists under any comparison

Nothing obliges a comparison to be an order: that of buckets is none where they overlap. A list may then be in no order, and a search of
it may end anywhere. Two things hold even so. No operation uses an index that the list does not have, and none goes on for ever: the
operations that look at every index before they use it and count the rounds of their loops (`Checked`) never fail, and give what those
give that do neither (`Checked.apply_eq`, `Checked.run_eq`). And no element comes or goes unasked: an addition puts in the one element
that it is given, a removal takes out elements that equal the probe, and the others stay as they stood (`add_cases`, `remove?_eq_some`,
`removeAll_leaves`).
-/

namespace Kademlia.SortedList

variable {α : Type} {cmp : α → α → Ordering} {duplicates : Duplicates} {l : SortedList α cmp duplicates} {x y : α}

/-! ## Where an addition goes -/

/-- An element that is not found would be put into the list or at its end, not beyond. -/
theorem le_length_of_insertAt {i : Nat} (h : l.positionOf x = .insertAt i) : i ≤ l.items.length := by
  have hle := l.index_positionBy_le fun y => cmp y x
  rwa [show l.positionBy (fun y => cmp y x) = .insertAt i from h] at hle

/-- The first index that is not less is in the list or its end, whatever the comparison answers. -/
theorem firstNotLess_le (l : SortedList α cmp duplicates) (x : α) : l.firstNotLess x ≤ l.items.length := l.index_positionBy_le _

/-! ## Operations that check their indexes -/

namespace Checked

/-- The search of `Search.narrow`; `none` if it asks about an index that is not there. -/
def narrow (order : Nat → Option Ordering) (base size : Nat) : Option Nat :=
  if 1 < size then do
    let o ← order (base + size / 2)
    if o = .gt then narrow order base (size - size / 2) else narrow order (base + size / 2) (size - size / 2)
  else some base
termination_by size

/-- The search of `Search.position`; `none` if it asks about an index that is not there. -/
def position (order : Nat → Option Ordering) (size : Nat) : Option Position :=
  if size = 0 then some (.insertAt 0)
  else do
    let base ← narrow order 0 size
    match ← order base with
    | .eq => some (.found base)
    | .lt => some (.insertAt (base + 1))
    | .gt => some (.insertAt base)

/-- Where a search by `f` ends in a list. -/
def positionBy (xs : List α) (f : α → Ordering) : Option Position := position (fun i => xs[i]?.map f) xs.length

/-- Puts an element at an index, which may be that behind the last. -/
def insert (xs : List α) (i : Nat) (x : α) : Option (List α) := if i ≤ xs.length then some (xs.insertIdx i x) else none

/-- Takes out the element at an index. -/
def takeOut (xs : List α) (i : Nat) : Option (α × List α) := xs[i]?.map fun y => (y, xs.eraseIdx i)

/-- Changes the element at an index. -/
def change (xs : List α) (i : Nat) (g : α → α) : Option (α × List α) := xs[i]?.map fun y => (y, xs.modify i g)

section Operations

variable (cmp : α → α → Ordering) (duplicates : Duplicates)

/-- Puts an element at its place, or refuses it. -/
def add (xs : List α) (x : α) : Option (List α × Bool) := do
  match ← positionBy xs fun y => cmp y x, duplicates with
  | .found _, .refused => some (xs, false)
  | .found _, .kept => do
    let first ← positionBy xs fun y => if cmp y x = .lt then .lt else .gt
    let added ← insert xs first.index x
    some (added, true)
  | .insertAt i, _ => do
    let added ← insert xs i x
    some (added, true)

/-- Adds elements one after the other. -/
def addAll : List α → List α → Option (List α × Bool)
  | xs, [] => some (xs, false)
  | xs, y :: ys => do
    let first ← add cmp duplicates xs y
    let rest ← addAll first.1 ys
    some (rest.1, first.2 || rest.2)

/-- Takes out an element found equal to `x`, if one is found. -/
def remove (xs : List α) (x : α) : Option (Option (α × List α)) := do
  match ← positionBy xs fun y => cmp y x with
  | .found i => (takeOut xs i).map some
  | .insertAt _ => some none

/-- Takes out elements equal to `x` until none is found; `none` also if so many rounds are not enough. -/
def removeEvery (x : α) : Nat → List α → Option (List α × Bool)
  | 0, _ => none
  | rounds + 1, xs => do
    match ← remove cmp xs x with
    | some (_, rest) => do
      let last ← removeEvery x rounds rest
      some (last.1, true)
    | none => some (xs, false)

/-- Takes out every element equal to one of these, each in no more rounds than there are elements and one. -/
def removeAll : List α → List α → Option (List α × Bool)
  | xs, [] => some (xs, false)
  | xs, y :: ys => do
    let first ← removeEvery cmp y (xs.length + 1) xs
    let rest ← removeAll first.1 ys
    some (rest.1, first.2 || rest.2)

/-- Changes the element that a search by `f` finds, if it finds one. -/
def update (xs : List α) (f : α → Ordering) (g : α → α) : Option (Option (α × List α)) := do
  match ← positionBy xs f with
  | .found i => (change xs i g).map some
  | .insertAt _ => some none

/-- The outcome of an edit of one element. -/
def orUnchanged (xs : List α) : Option (α × List α) → List α × Edit.Answer α
  | some (y, edited) => (edited, .element (some y))
  | none => (xs, .element none)

/-- The elements after an edit, and the answer; `none` if an index is out of range or a loop does not end in time. -/
def apply (xs : List α) : Edit α → Option (List α × Edit.Answer α)
  | .add x => (add cmp duplicates xs x).map fun r => (r.1, .changed r.2)
  | .addAll ys => (addAll cmp duplicates xs ys).map fun r => (r.1, .changed r.2)
  | .remove x => (remove cmp xs x).map (orUnchanged xs)
  | .removeAll ys => (removeAll cmp xs ys).map fun r => (r.1, .changed r.2)
  | .clear => some ([], .done)
  | .update f g => (update xs f g).map (orUnchanged xs)

/-- The elements after a sequence of edits; `none` if one of them fails. -/
def run : List α → List (Edit α) → Option (List α)
  | xs, [] => some xs
  | xs, e :: es => do
    let next ← apply cmp duplicates xs e
    run next.1 es

end Operations

/-! ## No check fails -/

/-- Halving the range asks about no index that is not there. -/
theorem narrow_eq {order : Nat → Option Ordering} {total : Nat → Ordering} {base size : Nat}
    (h : ∀ i, i < base + size → order i = some (total i)) : narrow order base size = some (Search.narrow total base size) := by
  fun_induction Search.narrow total base size with
  | case1 base size hsize hgt ih =>
    rw [narrow, if_pos hsize, h _ (by omega), Option.bind_eq_bind, Option.bind_some, if_pos hgt]
    exact ih fun i hi => h i (by omega)
  | case2 base size hsize hgt ih =>
    rw [narrow, if_pos hsize, h _ (by omega), Option.bind_eq_bind, Option.bind_some, if_neg hgt]
    exact ih fun i hi => h i (by omega)
  | case3 base size hsize => rw [narrow, if_neg hsize]

/-- A search asks about no index that is not there. -/
theorem position_eq {order : Nat → Option Ordering} {total : Nat → Ordering} {size : Nat}
    (h : ∀ i < size, order i = some (total i)) : position order size = some (Search.position total size) := by
  unfold position Search.position
  by_cases hsize : size = 0
  · rw [if_pos hsize, if_pos hsize]
  · have hnarrow : narrow order 0 size = some (Search.narrow total 0 size) := by
      refine narrow_eq ?_
      intro i hi
      exact h i (by omega)
    have hlt := (Search.narrow_lt total 0 size (Nat.pos_of_ne_zero hsize)).2
    rw [if_neg hsize, if_neg hsize, hnarrow, Option.bind_eq_bind, Option.bind_some, h (Search.narrow total 0 size) (by omega),
      Option.bind_eq_bind, Option.bind_some]
    cases horder : total (Search.narrow total 0 size) with
    | lt => simp only [horder]
    | eq => simp only [horder]
    | gt => simp only [horder]

/-- A checked search never fails and finds what the search finds. -/
theorem positionBy_eq (l : SortedList α cmp duplicates) (f : α → Ordering) : positionBy l.items f = some (l.positionBy f) := by
  refine position_eq ?_
  intro i hi
  rw [List.getElem?_eq_getElem hi]
  rfl

theorem insert_eq {xs : List α} {i : Nat} (h : i ≤ xs.length) (x : α) : insert xs i x = some (xs.insertIdx i x) := if_pos h

/-- An element is put at no index beyond the end. -/
theorem add_eq (l : SortedList α cmp duplicates) (x : α) :
    add cmp duplicates l.items x = some ((l.add x).1.items, (l.add x).2) := by
  have hsearch : positionBy l.items (fun y => cmp y x) = some (l.positionOf x) := positionBy_eq l _
  have hfirst : positionBy l.items (fun y => if cmp y x = .lt then .lt else .gt) =
      some (l.positionBy fun y => if cmp y x = .lt then .lt else .gt) := positionBy_eq l _
  unfold add
  rw [hsearch, hfirst]
  cases hpos : l.positionOf x with
  | insertAt i =>
    rw [add_of_insertAt hpos]
    change (insert l.items i x).bind _ = _
    rw [insert_eq (le_length_of_insertAt hpos)]
    rfl
  | found i =>
    cases duplicates with
    | refused =>
      rw [add_of_found_refused hpos]
      rfl
    | kept =>
      rw [add_of_found_kept hpos]
      change (insert l.items (l.firstNotLess x) x).bind _ = _
      rw [insert_eq (l.firstNotLess_le x)]
      rfl

/-- Adding one after the other never fails, as no addition does. -/
theorem addAll_eq (l : SortedList α cmp duplicates) (xs : List α) :
    addAll cmp duplicates l.items xs = some ((l.addAll xs).1.items, (l.addAll xs).2) := by
  induction xs generalizing l with
  | nil => rfl
  | cons x xs ih => rw [addAll, add_eq, Option.bind_eq_bind, Option.bind_some, ih]; rfl

/-- The element taken out is there. -/
theorem remove_eq (l : SortedList α cmp duplicates) (x : α) :
    remove cmp l.items x = some ((l.remove? x).map fun r => (r.1, r.2.items)) := by
  unfold remove SortedList.remove? positionOf
  rw [positionBy_eq, Option.bind_eq_bind, Option.bind_some]
  cases hpos : l.positionBy fun y => cmp y x with
  | insertAt i => rfl
  | found i =>
    obtain ⟨y, hy, -⟩ := getElem?_of_positionBy hpos
    simp only [takeOut, hy]
    rfl

/-- Each round but the last takes an element out, so there is at most one round more than there are elements. -/
theorem removeEvery_eq (l : SortedList α cmp duplicates) (x : α) {rounds : Nat} (h : l.size < rounds) :
    removeEvery cmp x rounds l.items = some ((l.removeEvery x).1.items, (l.removeEvery x).2) := by
  induction rounds generalizing l with
  | zero => exact absurd h (Nat.not_lt_zero _)
  | succ rounds ih =>
    rw [removeEvery, remove_eq, Option.bind_eq_bind, Option.bind_some]
    cases htaken : l.remove? x with
    | none =>
      rw [removeEvery_of_eq_none htaken]
      rfl
    | some taken =>
      obtain ⟨y, rest⟩ := taken
      have hless := size_of_remove? htaken
      rw [removeEvery_of_eq_some htaken, Option.map_some]
      simp only [ih rest (by omega)]
      rfl

/-- Taking out one after the other never fails, as no removal does. -/
theorem removeAll_eq (l : SortedList α cmp duplicates) (xs : List α) :
    removeAll cmp l.items xs = some ((l.removeAll xs).1.items, (l.removeAll xs).2) := by
  induction xs generalizing l with
  | nil => rfl
  | cons x xs ih =>
    have hfirst : removeEvery cmp x (l.items.length + 1) l.items = some ((l.removeEvery x).1.items, (l.removeEvery x).2) :=
      removeEvery_eq l x (Nat.lt_succ_self _)
    rw [removeAll, hfirst, Option.bind_eq_bind, Option.bind_some, ih]
    rfl

/-- The element changed is there. -/
theorem update_eq (l : SortedList α cmp duplicates) (f : α → Ordering) (g : α → α) :
    update l.items f g = some ((l.updateBy? f g).map fun r => (r.1, r.2.items)) := by
  unfold update
  rw [positionBy_eq, Option.bind_eq_bind, Option.bind_some]
  cases hpos : l.positionBy f with
  | insertAt i =>
    rw [updateBy?_of_insertAt g hpos]
    rfl
  | found i =>
    obtain ⟨y, hy, -⟩ := getElem?_of_positionBy hpos
    rw [updateBy?_of_found g hpos, hy]
    simp only [change, hy]
    rfl

/-- What is left unchanged where nothing is found is the same for the elements and for the list of them. -/
theorem orUnchanged_eq (l : SortedList α cmp duplicates) (found : Option (α × SortedList α cmp duplicates)) :
    orUnchanged l.items (found.map fun r => (r.1, r.2.items)) = ((l.orUnchanged found).1.items, (l.orUnchanged found).2) := by
  cases found with
  | none => rfl
  | some r => rfl

/-- An edit that checks its indexes and rounds does not fail and does what the edit does. -/
theorem apply_eq (l : SortedList α cmp duplicates) (e : Edit α) :
    apply cmp duplicates l.items e = some ((l.apply e).1.items, (l.apply e).2) := by
  cases e with
  | add x => rw [apply, add_eq]; rfl
  | addAll xs => rw [apply, addAll_eq]; rfl
  | remove x => rw [apply, remove_eq, Option.map_some, orUnchanged_eq]; rfl
  | removeAll xs => rw [apply, removeAll_eq]; rfl
  | clear => rfl
  | update f g => rw [apply, update_eq, Option.map_some, orUnchanged_eq]; rfl

/-- A sequence of checked edits does not fail and ends with what the edits end with. -/
theorem run_eq (l : SortedList α cmp duplicates) (edits : List (Edit α)) :
    run cmp duplicates l.items edits = some (l.run edits).items := by
  induction edits generalizing l with
  | nil => rfl
  | cons e es ih => rw [run, apply_eq, Option.bind_eq_bind, Option.bind_some, ih]; rfl

end Checked

/-! ## What comes in and what goes out -/

/-- An addition puts the element in at one place, or finds one that equals it and leaves the list if duplicates are refused. -/
theorem add_cases (l : SortedList α cmp duplicates) (x : α) :
    (∃ before behind, l.items = before ++ behind ∧ l.add x = (⟨before ++ x :: behind⟩, true)) ∨
      duplicates = .refused ∧ (∃ y ∈ l.items, cmp y x = .eq) ∧ l.add x = (l, false) := by
  have hinsert : ∀ i, i ≤ l.items.length → ∃ before behind, l.items = before ++ behind ∧
      l.items.insertIdx i x = before ++ x :: behind := by
    intro i hi
    have h := insertIdx_length_append (l.items.take i) (l.items.drop i) x
    rw [List.take_append_drop, List.length_take_of_le hi] at h
    exact ⟨_, _, (List.take_append_drop i l.items).symm, h⟩
  cases hpos : l.positionOf x with
  | insertAt i =>
    obtain ⟨before, behind, hitems, hadded⟩ := hinsert i (le_length_of_insertAt hpos)
    exact Or.inl ⟨before, behind, hitems, by rw [add_of_insertAt hpos, hadded]⟩
  | found i =>
    cases duplicates with
    | refused =>
      obtain ⟨y, hy, heq⟩ := getElem?_of_positionBy hpos
      exact Or.inr ⟨rfl, ⟨y, List.mem_of_getElem? hy, heq⟩, add_of_found_refused hpos⟩
    | kept =>
      obtain ⟨before, behind, hitems, hadded⟩ := hinsert _ (l.firstNotLess_le x)
      exact Or.inl ⟨before, behind, hitems, by rw [add_of_found_kept hpos, hadded]⟩

/-- A removal takes out one element, which equals the probe. -/
theorem remove?_eq_some {rest : SortedList α cmp duplicates} (h : l.remove? x = some (y, rest)) :
    cmp y x = .eq ∧ ∃ before behind, l.items = before ++ y :: behind ∧ rest.items = before ++ behind := by
  cases hpos : l.positionOf x with
  | insertAt i =>
    rw [remove?_of_insertAt hpos] at h
    cases h
  | found i =>
    obtain ⟨z, hz, heq⟩ := getElem?_of_positionBy hpos
    rw [remove?_of_found hpos, hz, Option.map_some, Option.some.injEq, Prod.mk.injEq] at h
    obtain ⟨rfl, rfl⟩ := h
    obtain ⟨hi, hget⟩ := List.getElem?_eq_some_iff.1 hz
    refine ⟨heq, l.items.take i, l.items.drop (i + 1), ?_, List.eraseIdx_eq_take_drop_succ _ _⟩
    rw [← hget, ← List.drop_eq_getElem_cons hi, List.take_append_drop]

/-- An edit in place exchanges one element, which the search calls equal. -/
theorem updateBy?_eq_some {f : α → Ordering} {g : α → α} {edited : SortedList α cmp duplicates}
    (h : l.updateBy? f g = some (y, edited)) :
    f y = .eq ∧ ∃ before behind, l.items = before ++ y :: behind ∧ edited.items = before ++ g y :: behind := by
  cases hfound : l.getBy? f with
  | none =>
    rw [updateBy?_of_getBy?_eq_none g hfound] at h
    cases h
  | some z =>
    obtain ⟨before, behind, hitems, hupdate⟩ := updateBy?_of_getBy?_eq_some g hfound
    rw [hupdate, Option.some.injEq, Prod.mk.injEq] at h
    obtain ⟨rfl, rfl⟩ := h
    exact ⟨(getBy?_eq_some hfound).2, before, behind, hitems, rfl⟩

/-- What is left of a list when some elements are taken out of it: the others, as they stood. -/
structure Leaves (xs taken rest : List α) : Prop where
  perm : xs.Perm (taken ++ rest)
  sublist : rest.Sublist xs

namespace Leaves

theorem refl (xs : List α) : Leaves xs [] xs := ⟨List.Perm.refl _, List.Sublist.refl _⟩

theorem one (before : List α) (y : α) (behind : List α) : Leaves (before ++ y :: behind) [y] (before ++ behind) :=
  ⟨List.perm_middle, List.Sublist.append_left (List.sublist_cons_self y behind) before⟩

/-- What is left after two steps is what is left when the elements of both are taken out. -/
theorem trans {xs ys zs taken more : List α} (h : Leaves xs taken ys) (h' : Leaves ys more zs) :
    Leaves xs (taken ++ more) zs := by
  refine ⟨h.perm.trans ?_, h'.sublist.trans h.sublist⟩
  rw [List.append_assoc]
  exact h'.perm.append_left taken

/-- A list got shorter if there is anything that was taken out. -/
theorem length_lt_iff {xs taken rest : List α} (h : Leaves xs taken rest) : rest.length < xs.length ↔ taken ≠ [] := by
  have hlength := h.perm.length_eq
  rw [List.length_append] at hlength
  rw [← List.length_pos_iff]
  omega

end Leaves

/-- A removal of every equal takes out only elements that equal the probe, and says whether it took any. -/
theorem removeEvery_leaves (l : SortedList α cmp duplicates) (x : α) :
    ∃ taken, Leaves l.items taken (l.removeEvery x).1.items ∧ (∀ y ∈ taken, cmp y x = .eq) ∧
      ((l.removeEvery x).2 = true ↔ taken ≠ []) := by
  fun_induction SortedList.removeEvery l x with
  | case1 l y rest htaken ih =>
    obtain ⟨heq, before, behind, hitems, hrest⟩ := remove?_eq_some htaken
    obtain ⟨taken, hleaves, htakenEq, -⟩ := ih
    have hfirst : Leaves l.items [y] rest.items := by
      rw [hitems, hrest]
      exact Leaves.one before y behind
    exact ⟨y :: taken, hfirst.trans hleaves, List.forall_mem_cons.2 ⟨heq, htakenEq⟩, by simp⟩
  | case2 l hnone => exact ⟨[], Leaves.refl _, by simp, by simp⟩

/-- A removal of several probes takes out elements that equal one of them, and says whether it took any. -/
theorem removeAll_leaves (l : SortedList α cmp duplicates) (xs : List α) :
    ∃ taken, Leaves l.items taken (l.removeAll xs).1.items ∧ (∀ y ∈ taken, ∃ x ∈ xs, cmp y x = .eq) ∧
      ((l.removeAll xs).2 = true ↔ taken ≠ []) := by
  induction xs generalizing l with
  | nil => exact ⟨[], Leaves.refl _, by simp, by simp [SortedList.removeAll]⟩
  | cons x xs ih =>
    obtain ⟨first, hfirst, hfirstEq, hfirstSome⟩ := l.removeEvery_leaves x
    obtain ⟨rest, hrest, hrestEq, hrestSome⟩ := ih (l.removeEvery x).1
    refine ⟨first ++ rest, hfirst.trans hrest, List.forall_mem_append.2 ⟨?_, ?_⟩, ?_⟩
    · intro y hy
      exact ⟨x, List.mem_cons_self, hfirstEq y hy⟩
    · intro y hy
      obtain ⟨z, hz, heq⟩ := hrestEq y hy
      exact ⟨z, List.mem_cons_of_mem x hz, heq⟩
    · rw [SortedList.removeAll, Bool.or_eq_true, hfirstSome, hrestSome]
      simp only [ne_eq, List.append_eq_nil_iff, not_and_or]

/-- Whatever the comparison and the questions asked of elements, and whatever edits a list has been through, no edit ever used an index
out of range or went round a loop more often than there were elements, and neither does a further edit or search. A further addition
puts the new element in at one place, or, only if duplicates are refused, leaves the list as it is. A removal takes out one element, one
that equals the probe, and the others stay as they stood. What a search gives, or an edit in place changes, is an element that answered
that it is equal. A removal of several probes takes out only elements that equal one of them, and answers whether the list got shorter. -/
theorem run_conserves (edits : List (Edit α)) :
    let l := (empty : SortedList α cmp duplicates).run edits
    Checked.run cmp duplicates [] edits = some l.items ∧
      (∀ e, Checked.apply cmp duplicates l.items e = some ((l.apply e).1.items, (l.apply e).2)) ∧
      (∀ f, Checked.positionBy l.items f = some (l.positionBy f)) ∧
      (∀ x, (∃ before behind, l.items = before ++ behind ∧ l.add x = (⟨before ++ x :: behind⟩, true)) ∨
        duplicates = .refused ∧ (∃ y ∈ l.items, cmp y x = .eq) ∧ l.add x = (l, false)) ∧
      (∀ x y rest, l.remove? x = some (y, rest) →
        cmp y x = .eq ∧ ∃ before behind, l.items = before ++ y :: behind ∧ rest.items = before ++ behind) ∧
      (∀ f y, l.getBy? f = some y → y ∈ l.items ∧ f y = .eq) ∧
      (∀ f g y edited, l.updateBy? f g = some (y, edited) →
        f y = .eq ∧ ∃ before behind, l.items = before ++ y :: behind ∧ edited.items = before ++ g y :: behind) ∧
      ∀ xs, (∃ taken, Leaves l.items taken (l.removeAll xs).1.items ∧ ∀ y ∈ taken, ∃ x ∈ xs, cmp y x = .eq) ∧
        ((l.removeAll xs).2 = true ↔ (l.removeAll xs).1.size < l.size) := by
  intro l
  refine ⟨Checked.run_eq empty edits, Checked.apply_eq l, Checked.positionBy_eq l, l.add_cases, ?_, ?_, ?_, ?_⟩
  · intro x y rest
    exact remove?_eq_some
  · intro f y
    exact getBy?_eq_some
  · intro f g y edited
    exact updateBy?_eq_some
  · intro xs
    obtain ⟨taken, hleaves, heq, hsome⟩ := l.removeAll_leaves xs
    exact ⟨⟨taken, hleaves, heq⟩, hsome.trans hleaves.length_lt_iff.symm⟩

end Kademlia.SortedList
