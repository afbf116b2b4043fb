import Kademlia.Proofs.Edits
import Mathlib.Data.Quot
import Mathlib.Logic.Function.Basic
import Mathlib.Order.Defs.LinearOrder

/-!
# Sorted lists as maps from order classes

Elements that a comparison calls equal form an order class. A list that refuses equal elements holds at most one of each class, so
it is a finite map from classes to elements, and each of its edits is the edit of that map: the map never mentions a position, while
the list finds every position by a search that is right only as long as all the positions before were.
-/

namespace Kademlia.SortedList

/-! ## Order classes -/

section Classes

variable {α : Type} (cmp : α → α → Ordering) [Std.TransCmp cmp]

/-- Being called equal is an equivalence. -/
def sameClass : Setoid α where
  r x y := cmp x y = .eq
  iseqv := ⟨fun _ => Std.ReflCmp.compare_self, Std.OrientedCmp.eq_symm, Std.TransCmp.eq_trans⟩

/-- The classes of elements that the comparison calls equal. -/
def OrderClass : Type := Quotient (sameClass cmp)

/-- The class of an element. -/
def classOf (x : α) : OrderClass cmp := Quotient.mk (sameClass cmp) x

/-- Two elements are of one class if the comparison calls them equal. -/
theorem classOf_eq_iff {x y : α} : classOf cmp x = classOf cmp y ↔ cmp x y = .eq :=
  ⟨Quotient.exact (s := sameClass cmp), Quotient.sound (s := sameClass cmp)⟩

/-- Elements that are not equal are of different classes. -/
theorem classOf_ne {x y : α} (h : cmp x y ≠ .eq) : classOf cmp x ≠ classOf cmp y := fun hc => h ((classOf_eq_iff cmp).1 hc)

instance : DecidableEq (OrderClass cmp) :=
  @Quotient.decidableEq α (sameClass cmp) fun x y => inferInstanceAs (Decidable (cmp x y = .eq))

/-- A map from order classes to elements. -/
abbrev ClassMap : Type := OrderClass cmp → Option α

end Classes

namespace ClassMap

variable {α : Type} {cmp : α → α → Ordering} [Std.TransCmp cmp]

/-- Adds an element unless there is one of its class; says whether it was added. -/
def add (m : ClassMap cmp) (x : α) : ClassMap cmp × Bool :=
  match m (classOf cmp x) with
  | some _ => (m, false)
  | none => (Function.update m (classOf cmp x) (some x), true)

/-- To each class that has no element the first one of `xs` in it; says whether a class of `xs` had none. -/
def addAll (m : ClassMap cmp) (xs : List α) : ClassMap cmp × Bool :=
  (fun c => (m c).or (xs.find? fun x => classOf cmp x = c), xs.any fun x => (m (classOf cmp x)).isNone)

/-- Takes the classes of `xs` out; says whether one of them had an element. -/
def removeAll (m : ClassMap cmp) (xs : List α) : ClassMap cmp × Bool :=
  (fun c => if c ∈ xs.map (classOf cmp) then none else m c, xs.any fun x => (m (classOf cmp x)).isSome)

/-- Changes an element, if one was found. -/
def update (m : ClassMap cmp) (found : Option α) (g : α → α) : ClassMap cmp :=
  found.elim m fun y => Function.update m (classOf cmp y) (some (g y))

/-- The map after an edit, and the answer, where `find` says which element an edit in place is about. -/
def apply (m : ClassMap cmp) (find : (α → Ordering) → Option α) : Edit α → ClassMap cmp × Edit.Answer α
  | .add x => ((m.add x).1, .changed (m.add x).2)
  | .addAll xs => ((m.addAll xs).1, .changed (m.addAll xs).2)
  | .remove x => (Function.update m (classOf cmp x) none, .element (m (classOf cmp x)))
  | .removeAll xs => ((m.removeAll xs).1, .changed (m.removeAll xs).2)
  | .clear => (fun _ => none, .done)
  | .update f g => (m.update (find f) g, .element (find f))

theorem addAll_nil (m : ClassMap cmp) : m.addAll [] = (m, false) := by
  simp [addAll]

/-- Adding several elements to the map at once is adding the first and then the rest. -/
theorem addAll_cons (m : ClassMap cmp) (x : α) (xs : List α) :
    m.addAll (x :: xs) = (((m.add x).1.addAll xs).1, (m.add x).2 || ((m.add x).1.addAll xs).2) := by
  unfold add
  cases hx : m (classOf cmp x) with
  | some y =>
    simp only [addAll, List.any_cons, hx, Option.isNone_some, Bool.false_or, Prod.mk.injEq, and_true]
    funext c
    by_cases hc : classOf cmp x = c
    · simp [← hc, hx]
    · simp [hc]
  | none =>
    simp only [addAll, List.any_cons, hx, Option.isNone_none, Bool.true_or, Prod.mk.injEq, and_true]
    funext c
    by_cases hc : classOf cmp x = c
    · simp [← hc, hx]
    · simp [hc, Function.update_of_ne (Ne.symm hc)]

theorem removeAll_nil (m : ClassMap cmp) : m.removeAll [] = (m, false) := by
  simp [removeAll]

/-- Taking several classes out of the map at once is taking out the first and then the rest. -/
theorem removeAll_cons (m : ClassMap cmp) (x : α) (xs : List α) :
    m.removeAll (x :: xs) =
      ((removeAll (Function.update m (classOf cmp x) none) xs).1,
        (m (classOf cmp x)).isSome || (removeAll (Function.update m (classOf cmp x) none) xs).2) := by
  refine Prod.ext (funext fun c => ?_) ?_
  · by_cases hc : c = classOf cmp x
    · simp [removeAll, hc]
    · simp [removeAll, hc]
  · cases hx : m (classOf cmp x) with
    | some y => simp [removeAll, hx]
    | none =>
      have hsame : Function.update m (classOf cmp x) none = m := Function.update_eq_self_iff.2 hx.symm
      simp [removeAll, hx, hsame]

end ClassMap

/-! ## The map of a list -/

variable {α : Type} {cmp : α → α → Ordering} {duplicates : Duplicates} [Std.TransCmp cmp]

/-- The map that a list stands for: to each class its first element. -/
def classMap (l : SortedList α cmp duplicates) : ClassMap cmp := fun c => l.items.find? fun y => classOf cmp y = c

variable {l : SortedList α cmp duplicates} {before behind : List α} {x y : α}

/-- A class of which there is no element is not in the map. -/
theorem classMap_of_ne {c : OrderClass cmp} (h : ∀ y ∈ l.items, classOf cmp y ≠ c) : l.classMap c = none :=
  List.find?_eq_none.2 fun y hy => by simp [h y hy]

/-- An element put behind others that are not of its class is the element of its class. -/
theorem classMap_middle (h : ∀ z ∈ before, classOf cmp z ≠ classOf cmp x) :
    (⟨before ++ x :: behind⟩ : SortedList α cmp duplicates).classMap =
      Function.update (⟨before ++ behind⟩ : SortedList α cmp duplicates).classMap (classOf cmp x) (some x) := by
  funext c
  by_cases hc : classOf cmp x = c
  · have hbefore : before.find? (fun y => classOf cmp y = c) = none := List.find?_eq_none.2 fun y hy => by simp [← hc, h y hy]
    simp [classMap, List.find?_append, hbefore, hc]
  · simp [classMap, List.find?_append, hc, Function.update_of_ne (Ne.symm hc)]

namespace Ascending

/-- No other element is of the class of one. -/
theorem classOf_ne (h : (⟨before ++ y :: behind⟩ : SortedList α cmp duplicates).Ascending) :
    (∀ z ∈ before, classOf cmp z ≠ classOf cmp y) ∧ ∀ z ∈ behind, classOf cmp z ≠ classOf cmp y := by
  obtain ⟨-, htail, hacross⟩ := List.pairwise_append.1 h
  obtain ⟨hy, -⟩ := List.pairwise_cons.1 htail
  refine ⟨fun z hz => SortedList.classOf_ne cmp ?_, fun z hz => (SortedList.classOf_ne cmp ?_).symm⟩
  · simp [hacross z hz y (by simp)]
  · simp [hy z hz]

/-- Each element is the one of its class. -/
theorem classMap_eq_some_iff (h : l.Ascending) {c : OrderClass cmp} : l.classMap c = some y ↔ y ∈ l.items ∧ classOf cmp y = c := by
  constructor
  · intro hy
    exact ⟨List.mem_of_find?_eq_some hy, by simpa using List.find?_some hy⟩
  · rintro ⟨hy, rfl⟩
    obtain ⟨before, behind, hitems⟩ := List.append_of_mem hy
    obtain ⟨items⟩ := l
    subst hitems
    rw [classMap_middle h.classOf_ne.1, Function.update_self]

/-- Taking an element out takes its class out of the map. -/
theorem classMap_erase (h : (⟨before ++ y :: behind⟩ : SortedList α cmp duplicates).Ascending) :
    (⟨before ++ behind⟩ : SortedList α cmp duplicates).classMap =
      Function.update (⟨before ++ y :: behind⟩ : SortedList α cmp duplicates).classMap (classOf cmp y) none := by
  obtain ⟨hbefore, hbehind⟩ := h.classOf_ne
  have hnone : (⟨before ++ behind⟩ : SortedList α cmp duplicates).classMap (classOf cmp y) = none :=
    classMap_of_ne (List.forall_mem_append.2 ⟨hbefore, hbehind⟩)
  rw [classMap_middle hbefore, Function.update_idem, Function.update_eq_self_iff.2 hnone.symm]

/-- An element exchanged for one of its class is exchanged in the map. -/
theorem classMap_exchange (h : (⟨before ++ y :: behind⟩ : SortedList α cmp duplicates).Ascending) (hx : cmp x y = .eq) :
    (⟨before ++ x :: behind⟩ : SortedList α cmp duplicates).classMap =
      Function.update (⟨before ++ y :: behind⟩ : SortedList α cmp duplicates).classMap (classOf cmp y) (some x) := by
  obtain ⟨hbefore, -⟩ := h.classOf_ne
  have hclass : classOf cmp x = classOf cmp y := (classOf_eq_iff cmp).2 hx
  rw [classMap_middle (hclass ▸ hbefore), classMap_middle hbefore, Function.update_idem, hclass]

/-- A list in order, seen from a probe: the probe meets the element of its class, or falls into the gap that its class leaves. -/
theorem probe (h : l.Ascending) (x : α) :
    (∃ before y behind, l.items = before ++ y :: behind ∧ (∀ z ∈ before, cmp z x = .lt) ∧ cmp y x = .eq ∧
        (∀ z ∈ behind, cmp z x = .gt) ∧ l.classMap (classOf cmp x) = some y) ∨
      ∃ before behind, l.items = before ++ behind ∧ (∀ z ∈ before, cmp z x = .lt) ∧ (∀ z ∈ behind, cmp z x = .gt) ∧
        l.classMap (classOf cmp x) = none := by
  rcases h.met_or_gap (cut_element x) with ⟨before, y, behind, hitems, hlt, heq, hgt⟩ | ⟨before, behind, hitems, hlt, hgt⟩
  · have hy : y ∈ l.items := by simp [hitems]
    exact Or.inl ⟨before, y, behind, hitems, hlt, heq, hgt, h.classMap_eq_some_iff.2 ⟨hy, (classOf_eq_iff cmp).2 heq⟩⟩
  · refine Or.inr ⟨before, behind, hitems, hlt, hgt, classMap_of_ne fun z hz => SortedList.classOf_ne cmp ?_⟩
    rcases List.mem_append.1 (hitems ▸ hz) with hz | hz
    · simp [hlt z hz]
    · simp [hgt z hz]

/-- No element stands twice in a list in strict order. -/
theorem nodup (h : l.Ascending) : l.items.Nodup := by
  refine List.Pairwise.imp ?_ h
  rintro a b hab rfl
  have heq : cmp a a = .eq := Std.ReflCmp.compare_self
  rw [hab] at heq
  cases heq

/-- A probe is answered with the element that the map has for its class. -/
theorem get?_eq (h : l.Ascending) (x : α) : l.get? x = l.classMap (classOf cmp x) := by
  rcases h.probe x with ⟨before, y, behind, hitems, hlt, heq, hgt, hmap⟩ | ⟨before, behind, hitems, hlt, hgt, hmap⟩
  · exact (getBy?_met hitems hlt heq hgt).trans hmap.symm
  · exact (getBy?_gap hitems hlt hgt).trans hmap.symm

/-- A probe stands behind exactly the elements that are less. -/
theorem positionOf_eq (h : l.Ascending) (x : α) :
    l.positionOf x =
      (if (l.classMap (classOf cmp x)).isSome then Position.found else Position.insertAt)
        (l.items.countP fun y => cmp y x = .lt) := by
  rcases h.probe x with ⟨before, y, behind, hitems, hlt, heq, hgt, hmap⟩ | ⟨before, behind, hitems, hlt, hgt, hmap⟩
  · have hcount : l.items.countP (fun y => cmp y x = .lt) = before.length := by
      rw [hitems]
      exact countP_append_eq_length (by simpa using hlt) (List.forall_mem_cons.2 ⟨by simp [heq], fun z hz => by simp [hgt z hz]⟩)
    rw [hmap, hcount]
    exact positionBy_found hitems hlt heq hgt
  · have hcount : l.items.countP (fun y => cmp y x = .lt) = before.length := by
      rw [hitems]
      exact countP_append_eq_length (by simpa using hlt) fun z hz => by simp [hgt z hz]
    rw [hmap, hcount]
    exact positionBy_gap hitems hlt hgt

/-! ## Edits -/

/-- An addition keeps the order and is that to the map. -/
theorem add {l : SortedList α cmp .refused} (h : l.Ascending) (x : α) :
    (l.add x).1.Ascending ∧ ((l.add x).1.classMap, (l.add x).2) = l.classMap.add x := by
  obtain ⟨items⟩ := l
  rcases h.probe x with ⟨before, y, behind, hitems, hlt, heq, hgt, hmap⟩ | ⟨before, behind, hitems, hlt, hgt, hmap⟩
  · rw [add_met hitems x hlt heq hgt, ClassMap.add, hmap]
    exact ⟨h, rfl⟩
  · subst hitems
    have hbefore : ∀ z ∈ before, classOf cmp z ≠ classOf cmp x := fun z hz => SortedList.classOf_ne cmp (by simp [hlt z hz])
    rw [add_gap x rfl hlt hgt, ClassMap.add, hmap, classMap_middle hbefore]
    exact ⟨h.of_gap hlt hgt, rfl⟩

/-- Several additions keep the order and are those to the map. -/
theorem addAll {l : SortedList α cmp .refused} (h : l.Ascending) (xs : List α) :
    (l.addAll xs).1.Ascending ∧ ((l.addAll xs).1.classMap, (l.addAll xs).2) = l.classMap.addAll xs := by
  induction xs generalizing l with
  | nil => exact ⟨h, (l.classMap.addAll_nil).symm⟩
  | cons x xs ih =>
    obtain ⟨hfirst, hadd⟩ := h.add x
    obtain ⟨hrest, hadds⟩ := ih hfirst
    rw [ClassMap.addAll_cons, ← hadd, ← hadds]
    exact ⟨hrest, rfl⟩

/-- What a removal takes out is the element of the class, and the class is all that the map loses. -/
theorem remove? (h : l.Ascending) (x : α) :
    match l.remove? x with
    | some (y, rest) =>
      l.classMap (classOf cmp x) = some y ∧ rest.Ascending ∧ rest.classMap = Function.update l.classMap (classOf cmp x) none
    | none => l.classMap (classOf cmp x) = none := by
  obtain ⟨items⟩ := l
  rcases h.probe x with ⟨before, y, behind, hitems, hlt, heq, hgt, hmap⟩ | ⟨before, behind, hitems, hlt, hgt, hmap⟩
  · subst hitems
    rw [remove?_met rfl x hlt heq hgt, hmap, ← (classOf_eq_iff cmp).2 heq]
    exact ⟨rfl, h.erase, h.classMap_erase⟩
  · rw [remove?_gap hitems x hlt hgt]
    exact hmap

/-- A removal, and its answer, is that from the map. -/
theorem remove (h : l.Ascending) (x : α) :
    (l.apply (.remove x)).1.Ascending ∧
      ((l.apply (.remove x)).1.classMap, (l.apply (.remove x)).2) = l.classMap.apply l.getBy? (.remove x) := by
  have hremove := h.remove? x
  simp only [SortedList.apply, ClassMap.apply]
  cases htaken : l.remove? x with
  | none =>
    rw [htaken] at hremove
    rw [hremove, Function.update_eq_self_iff.2 hremove.symm]
    exact ⟨h, rfl⟩
  | some taken =>
    rw [htaken] at hremove
    obtain ⟨hsome, hrest, hmap⟩ := hremove
    rw [hsome, ← hmap]
    exact ⟨hrest, rfl⟩

/-- The first removal takes out all there is of a class. -/
theorem removeEvery (h : l.Ascending) (x : α) :
    (l.removeEvery x).1.Ascending ∧ (l.removeEvery x).1.classMap = Function.update l.classMap (classOf cmp x) none ∧
      (l.removeEvery x).2 = (l.classMap (classOf cmp x)).isSome := by
  have hfirst := h.remove? x
  cases htaken : l.remove? x with
  | none =>
    rw [htaken] at hfirst
    rw [removeEvery_of_eq_none htaken, hfirst, Function.update_eq_self_iff.2 hfirst.symm]
    exact ⟨h, rfl, rfl⟩
  | some taken =>
    obtain ⟨y, rest⟩ := taken
    rw [htaken] at hfirst
    obtain ⟨hsome, hrest, hmap⟩ := hfirst
    have hsecond := hrest.remove? x
    cases hagain : rest.remove? x with
    | none =>
      rw [removeEvery_of_eq_some htaken, removeEvery_of_eq_none hagain, hsome]
      exact ⟨hrest, hmap, rfl⟩
    | some last =>
      rw [hagain, hmap, Function.update_self] at hsecond
      cases hsecond.1

/-- A removal of several probes takes their classes out of the map. -/
theorem removeAll (h : l.Ascending) (xs : List α) :
    (l.removeAll xs).1.Ascending ∧ ((l.removeAll xs).1.classMap, (l.removeAll xs).2) = l.classMap.removeAll xs := by
  induction xs generalizing l with
  | nil => exact ⟨h, (l.classMap.removeAll_nil).symm⟩
  | cons x xs ih =>
    obtain ⟨hfirst, hmap, hanswer⟩ := h.removeEvery x
    obtain ⟨hrest, hremoves⟩ := ih hfirst
    rw [ClassMap.removeAll_cons, ← hmap, ← hanswer, ← hremoves]
    exact ⟨hrest, rfl⟩

/-- A change in place keeps the order and changes one element of the map, if it keeps the class of the element. -/
theorem update (h : l.Ascending) {f : α → Ordering} {g : α → α} (hkeeps : l.KeepsClass (.update f g)) :
    (l.apply (.update f g)).1.Ascending ∧
      ((l.apply (.update f g)).1.classMap, (l.apply (.update f g)).2) = l.classMap.apply l.getBy? (.update f g) := by
  simp only [SortedList.apply, ClassMap.apply, ClassMap.update]
  cases hfound : l.getBy? f with
  | none =>
    rw [updateBy?_of_getBy?_eq_none g hfound]
    exact ⟨h, rfl⟩
  | some y =>
    obtain ⟨before, behind, hitems, hupdate⟩ := updateBy?_of_getBy?_eq_some g hfound
    have hclass := hkeeps y hfound
    rw [hupdate]
    obtain ⟨items⟩ := l
    subst hitems
    exact ⟨h.exchange hclass, by rw [orUnchanged, h.classMap_exchange hclass]; rfl⟩

/-- Each edit is that of the map. -/
theorem apply {l : SortedList α cmp .refused} (h : l.Ascending) {e : Edit α} (hkeeps : l.KeepsClass e) :
    (l.apply e).1.Ascending ∧ ((l.apply e).1.classMap, (l.apply e).2) = l.classMap.apply l.getBy? e := by
  cases e with
  | add x =>
    obtain ⟨hadded, hadd⟩ := h.add x
    exact ⟨hadded, by rw [ClassMap.apply, ← hadd]; rfl⟩
  | addAll xs =>
    obtain ⟨hadded, hadd⟩ := h.addAll xs
    exact ⟨hadded, by rw [ClassMap.apply, ← hadd]; rfl⟩
  | remove x => exact h.remove x
  | removeAll xs =>
    obtain ⟨hrest, hremove⟩ := h.removeAll xs
    exact ⟨hrest, by rw [ClassMap.apply, ← hremove]; rfl⟩
  | clear => exact ⟨ascending_empty, rfl⟩
  | update f g => exact h.update hkeeps

/-- Edits that keep the classes of the elements they change keep the order. -/
theorem run {l : SortedList α cmp .refused} (h : l.Ascending) {edits : List (Edit α)} (hkeeps : l.KeepsClasses edits) :
    (l.run edits).Ascending := by
  induction edits generalizing l with
  | nil => exact h
  | cons e es ih => exact ih (h.apply hkeeps.1).1 hkeeps.2

/-- An operation made of edits keeps the order as well, if a change in place keeps the class of the element it is about. -/
theorem perform {l : SortedList α cmp .refused} (h : l.Ascending) {ρ : Type} {c : Compound cmp .refused ρ}
    (hkeeps : l.KeepsClasses (c.edits l)) : (l.perform c).1.Ascending := by
  rw [perform_eq]
  exact h.run hkeeps

/-- The map says all there is to say of a list in order. -/
theorem eq_of_classMap_eq {l' : SortedList α cmp duplicates} (h : l.Ascending) (h' : l'.Ascending)
    (hmap : l.classMap = l'.classMap) : l = l' := by
  have hmem : ∀ y, y ∈ l.items ↔ y ∈ l'.items := by
    intro y
    have hl : l.classMap (classOf cmp y) = some y ↔ y ∈ l.items := by rw [h.classMap_eq_some_iff, and_iff_left rfl]
    have hl' : l'.classMap (classOf cmp y) = some y ↔ y ∈ l'.items := by rw [h'.classMap_eq_some_iff, and_iff_left rfl]
    rw [← hl, hmap, hl']
  have hperm : l.items.Perm l'.items := (List.perm_ext_iff_of_nodup h.nodup h'.nodup).2 hmem
  have hitems : l.items = l'.items := by
    refine List.Perm.eq_of_pairwise (fun a b _ _ hab hba => ?_) h h' hperm
    rw [Std.OrientedCmp.gt_of_lt hab] at hba
    cases hba
  cases l
  exact congrArg _ hitems

end Ascending

/-- Under a comparison that is a total preorder, a list that refuses equal elements is a finite map from order classes to elements,
whatever edits it has been through, as long as those in place kept the class of the element they changed. Its elements are in
strictly ascending order and are the elements of the map, and the map determines the list. A probe is answered with the element of
its class, at the position behind the elements that are less. Each further edit gives the answer and has the effect that it has on
the map: an element is added when its class has none and refused when its class has one, which stays. -/
theorem run_classMap (edits : List (Edit α)) (h : (empty : SortedList α cmp .refused).KeepsClasses edits) :
    let l := (empty : SortedList α cmp .refused).run edits
    l.Ascending ∧
      (∀ c y, l.classMap c = some y ↔ y ∈ l.items ∧ classOf cmp y = c) ∧
      (∀ l' : SortedList α cmp .refused, l'.Ascending → l'.classMap = l.classMap → l' = l) ∧
      (∀ x, l.get? x = l.classMap (classOf cmp x) ∧
        l.positionOf x =
          (if (l.classMap (classOf cmp x)).isSome then Position.found else Position.insertAt)
            (l.items.countP fun y => cmp y x = .lt)) ∧
      (∀ f y, l.getBy? f = some y → y ∈ l.items ∧ f y = .eq) ∧
      (∀ f, Cut cmp f → l.getBy? f = none → ∀ y ∈ l.items, f y ≠ .eq) ∧
      ∀ e, l.KeepsClass e → ((l.apply e).1.classMap, (l.apply e).2) = l.classMap.apply l.getBy? e := by
  intro l
  have hl : l.Ascending := ascending_empty.run h
  refine ⟨hl, fun c y => hl.classMap_eq_some_iff, fun l' hl' hmap => hl'.eq_of_classMap_eq hl hmap,
    fun x => ⟨hl.get?_eq x, hl.positionOf_eq x⟩, fun f y => getBy?_eq_some, fun f hf => hl.ne_eq_of_getBy?_eq_none hf,
    fun e hkeeps => (hl.apply hkeeps).2⟩

/-- Pairs in the order of their numbers: a second pair of a number is refused, a letter is changed, and a pair goes out by its number. -/
theorem run_classMap_of_pairs :
    let l : SortedList (Nat × Char) (compareOn Prod.fst) .refused := empty
    let edits : List (Edit (Nat × Char)) :=
      [.addAll [(5, 'a'), (3, 'b'), (5, 'c')], .update (fun y => compare y.1 3) fun y => (y.1, 'z'), .add (4, 'd'), .remove (4, 'q')]
    l.KeepsClasses edits ∧ (l.run edits).items = [(3, 'z'), (5, 'a')] ∧ (l.run edits).Ascending ∧
      ∀ x, (l.run edits).get? x = (l.run edits).classMap (classOf (compareOn Prod.fst) x) := by
  intro l edits
  have hkeeps : l.KeepsClasses edits := ⟨trivial, fun y _ => Nat.compare_eq_eq.2 rfl, trivial, trivial, trivial⟩
  have hitems : (l.run edits).items = [(3, 'z'), (5, 'a')] := by decide +kernel
  obtain ⟨hascending, -, -, hprobe, -⟩ := run_classMap edits hkeeps
  exact ⟨hkeeps, hitems, hascending, fun x => (hprobe x).1⟩

end Kademlia.SortedList
