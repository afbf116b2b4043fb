import Kademlia.Proofs.Lookup

/-!
# Edits of a sorted list

A list lives through a sequence of edits: elements come in one or many at a time, go out again, or are changed in place. Only the
last of these can spoil the order, when it moves an element to another order class, so a sequence of edits is asked to leave the
class of each element it changes alone. Operations that do more at a time come down to such sequences (`perform_eq`). Under a
comparison that is a total preorder, every list reached by such edits is in order, and in a list without equal elements a search meets
the one element it is after or falls into the one gap where it would stand.
-/

namespace Kademlia.SortedList

variable {α : Type} {cmp : α → α → Ordering} {duplicates : Duplicates}

/-! ## Sequences of edits -/

/-- A change to a list. -/
inductive Edit (α : Type)
  | add (x : α)
  | addAll (xs : List α)
  | remove (x : α)
  | removeAll (xs : List α)
  | clear
  | update (f : α → Ordering) (g : α → α)

/-- What an edit answers: whether it changed the list, or the element it took out or changed. -/
inductive Edit.Answer (α : Type)
  | changed (yes : Bool)
  | element (y : Option α)
  | done

/-- The outcome of an edit of one element, which leaves the list as it is where no such element is found. -/
def orUnchanged (l : SortedList α cmp duplicates) :
    Option (α × SortedList α cmp duplicates) → SortedList α cmp duplicates × Edit.Answer α
  | some (y, edited) => (edited, .element (some y))
  | none => (l, .element none)

/-- The list after an edit, and the answer. -/
def apply (l : SortedList α cmp duplicates) : Edit α → SortedList α cmp duplicates × Edit.Answer α
  | .add x => ((l.add x).1, .changed (l.add x).2)
  | .addAll xs => ((l.addAll xs).1, .changed (l.addAll xs).2)
  | .remove x => l.orUnchanged (l.remove? x)
  | .removeAll xs => ((l.removeAll xs).1, .changed (l.removeAll xs).2)
  | .clear => (l.clear, .done)
  | .update f g => l.orUnchanged (l.updateBy? f g)

/-- The list after a sequence of edits. -/
def run (l : SortedList α cmp duplicates) : List (Edit α) → SortedList α cmp duplicates
  | [] => l
  | e :: es => (l.apply e).1.run es

/-- An edit leaves the order class of the element it changes alone. -/
def KeepsClass (l : SortedList α cmp duplicates) : Edit α → Prop
  | .update f g => ∀ y, l.getBy? f = some y → cmp (g y) y = .eq
  | _ => True

/-- Each edit of a sequence leaves the order class of the element it changes alone. -/
def KeepsClasses (l : SortedList α cmp duplicates) : List (Edit α) → Prop
  | [] => True
  | e :: es => l.KeepsClass e ∧ (l.apply e).1.KeepsClasses es

/-! ## Operations made of edits -/

/-- A sequence of edits can be cut in two. -/
theorem run_append (l : SortedList α cmp duplicates) (es es' : List (Edit α)) : l.run (es ++ es') = (l.run es).run es' := by
  induction es generalizing l with
  | nil => rfl
  | cons e es ih => exact ih (l.apply e).1

/-- An operation that is made of edits: an addition on a condition, the exchange of all elements for others, or a change in place that
gives a result of its own. -/
inductive Compound (cmp : α → α → Ordering) (duplicates : Duplicates) (ρ : Type)
  | addIf (x : α) (condition : SortedList α cmp duplicates → Bool)
  | reset (xs : List α)
  | updateWith (f : α → Ordering) (g : α → ρ × α)

/-- What such an operation answers: whether it changed the list, or what the change says of the element it was about. -/
inductive Compound.Answer (ρ : Type)
  | changed (yes : Bool)
  | result (r : Option ρ)
  | done

section Compound

variable {ρ : Type}

/-- The list after such an operation, and the answer. -/
def perform (l : SortedList α cmp duplicates) : Compound cmp duplicates ρ → SortedList α cmp duplicates × Compound.Answer ρ
  | .addIf x condition => ((l.addIf x condition).1, .changed (l.addIf x condition).2)
  | .reset xs => (l.reset xs, .done)
  | .updateWith f g =>
    match l.updateWith? f g with
    | some (r, edited) => (edited, .result (some r))
    | none => (l, .result none)

/-- The edits that such an operation makes of a list. -/
def Compound.edits (l : SortedList α cmp duplicates) : Compound cmp duplicates ρ → List (Edit α)
  | .addIf x condition => if condition l then [.add x] else []
  | .reset xs => [.clear, .addAll xs]
  | .updateWith f g => [.update f fun y => (g y).2]

/-- What such an operation answers of a list, by the condition, the addition and the search that it is made of. -/
def Compound.answer (l : SortedList α cmp duplicates) : Compound cmp duplicates ρ → Compound.Answer ρ
  | .addIf x condition => .changed (condition l && (l.add x).2)
  | .reset _ => .done
  | .updateWith f g => .result ((l.getBy? f).map fun y => (g y).1)

/-- Such an operation does what its edits do, and answers by the list as it was. -/
theorem perform_eq (l : SortedList α cmp duplicates) (c : Compound cmp duplicates ρ) :
    l.perform c = (l.run (c.edits l), c.answer l) := by
  cases c with
  | addIf x condition =>
    simp only [perform, addIf, Compound.edits, Compound.answer]
    cases condition l with
    | true => rfl
    | false => rfl
  | reset xs => rfl
  | updateWith f g =>
    simp only [perform, Compound.edits, Compound.answer, run, apply, updateWith?_eq]
    cases hfound : l.getBy? f with
    | none =>
      rw [updateBy?_of_getBy?_eq_none _ hfound]
      rfl
    | some y =>
      obtain ⟨before, behind, -, hupdate⟩ := updateBy?_of_getBy?_eq_some (fun y => (g y).2) hfound
      rw [hupdate]
      rfl

/-- So a list that went through edits and such operations is one that went through edits. -/
theorem perform_run (l : SortedList α cmp duplicates) (es : List (Edit α)) (c : Compound cmp duplicates ρ) :
    ((l.run es).perform c).1 = l.run (es ++ c.edits (l.run es)) := by
  rw [perform_eq, run_append]

end Compound

/-! ## Lists without equal elements -/

/-- The elements stand in strictly ascending order. -/
def Ascending (l : SortedList α cmp duplicates) : Prop := l.items.Pairwise fun a b => cmp a b = .lt

/-- A question to the elements that follows their order: what is less than something not behind the sought is before the sought. -/
def Cut (cmp : α → α → Ordering) (f : α → Ordering) : Prop := ∀ a b, cmp a b = .lt → f b ≠ .gt → f a = .lt

variable {l : SortedList α cmp duplicates}

theorem ascending_empty : (empty : SortedList α cmp duplicates).Ascending := List.Pairwise.nil

/-- A question that follows the order meets one element, or a gap. -/
theorem Ascending.met_or_gap (h : l.Ascending) {f : α → Ordering} (hf : Cut cmp f) :
    (∃ before x behind, l.items = before ++ x :: behind ∧ (∀ y ∈ before, f y = .lt) ∧ f x = .eq ∧ ∀ y ∈ behind, f y = .gt) ∨
      ∃ before behind, l.items = before ++ behind ∧ (∀ y ∈ before, f y = .lt) ∧ ∀ y ∈ behind, f y = .gt :=
  Kademlia.met_or_gap (h.imp fun {a b} hab => hf a b hab)

/-- A search that follows the order finds an element where there is one. -/
theorem Ascending.ne_eq_of_getBy?_eq_none (h : l.Ascending) {f : α → Ordering} (hf : Cut cmp f) (hnone : l.getBy? f = none) :
    ∀ y ∈ l.items, f y ≠ .eq := by
  intro y hy heq
  have hfound := (getBy?_eq_some_iff (h.imp fun {a b} hab => hf a b hab)).2 ⟨hy, heq⟩
  rw [hnone] at hfound
  cases hfound

/-- A list in order stays so without one of its elements. -/
theorem Ascending.erase {before behind : List α} {y : α}
    (h : (⟨before ++ y :: behind⟩ : SortedList α cmp duplicates).Ascending) :
    (⟨before ++ behind⟩ : SortedList α cmp duplicates).Ascending :=
  List.Pairwise.sublist (List.Sublist.append_left (List.sublist_cons_self y behind) before) h

section Lawful

variable [Std.TransCmp cmp]

/-- Comparing with an element follows the order. -/
theorem cut_element (x : α) : Cut cmp fun y => cmp y x := by
  intro a b hab hbx
  exact Std.TransCmp.lt_of_lt_of_isLE hab (Ordering.isLE_iff_ne_gt.2 hbx)

/-- A list in order stays so with an element more in the gap where it belongs. -/
theorem Ascending.of_gap {before behind : List α} {x : α} (h : (⟨before ++ behind⟩ : SortedList α cmp duplicates).Ascending)
    (hlt : ∀ z ∈ before, cmp z x = .lt) (hgt : ∀ z ∈ behind, cmp z x = .gt) :
    (⟨before ++ x :: behind⟩ : SortedList α cmp duplicates).Ascending := by
  obtain ⟨hbefore, hbehind, hacross⟩ := List.pairwise_append.1 h
  have hx : ∀ z ∈ behind, cmp x z = .lt := fun z hz => Std.OrientedCmp.gt_iff_lt.1 (hgt z hz)
  exact List.pairwise_append.2 ⟨hbefore, List.pairwise_cons.2 ⟨hx, hbehind⟩,
    fun a ha => List.forall_mem_cons.2 ⟨hlt a ha, hacross a ha⟩⟩

/-- An element may be exchanged for one of its class. -/
theorem Ascending.exchange {before behind : List α} {y z : α}
    (h : (⟨before ++ y :: behind⟩ : SortedList α cmp duplicates).Ascending) (hz : cmp z y = .eq) :
    (⟨before ++ z :: behind⟩ : SortedList α cmp duplicates).Ascending := by
  obtain ⟨-, htail, hacross⟩ := List.pairwise_append.1 h
  obtain ⟨hy, -⟩ := List.pairwise_cons.1 htail
  refine h.erase.of_gap (fun a ha => ?_) fun b hb => ?_
  · exact Std.TransCmp.lt_of_lt_of_eq (hacross a ha y (by simp)) (Std.OrientedCmp.eq_symm hz)
  · exact Std.OrientedCmp.gt_of_lt (Std.TransCmp.lt_of_eq_of_lt hz (hy b hb))

end Lawful

end Kademlia.SortedList
