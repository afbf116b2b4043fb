import Kademlia.Search

/-!
# Lists kept in order

A list that its operations keep sorted by a comparison. Elements enter only at the position a search finds for them; there is no
way to put one elsewhere. Of elements that compare equal the list either refuses all but the first or keeps all, the newest before
the older ones.

Nothing here relies on the comparison being lawful: whatever it answers, an operation only ever inserts the one element it was
given, or takes out one that compared equal.
-/

namespace Kademlia

/-- What a list does with an element that compares equal to one it holds. -/
inductive Duplicates
  | refused
  | kept
deriving DecidableEq, Repr

/-- A list kept in the order of `cmp`. -/
structure SortedList (α : Type) (cmp : α → α → Ordering) (duplicates : Duplicates) where
  items : List α
deriving DecidableEq

namespace SortedList

variable {α : Type} {cmp : α → α → Ordering} {duplicates : Duplicates}

/-- The list of no elements. -/
def empty : SortedList α cmp duplicates := ⟨[]⟩

/-- Whether equal elements are kept. -/
def keepsDuplicates (_ : SortedList α cmp duplicates) : Bool := duplicates = .kept

/-- The number of elements. -/
def size (l : SortedList α cmp duplicates) : Nat := l.items.length

/-- Whether there is no element. -/
def isEmpty (l : SortedList α cmp duplicates) : Bool := l.items.isEmpty

/-- Where the elements that `f` calls equal are, or would be; `f` says how an element orders relative to what is sought. -/
def positionBy (l : SortedList α cmp duplicates) (f : α → Ordering) : Position :=
  Search.position (fun i => (l.items[i]?).elim .gt f) l.size

/-- The index of a search is within the list or one past its end, whatever `f` answers. -/
theorem index_positionBy_le (l : SortedList α cmp duplicates) (f : α → Ordering) : (l.positionBy f).index ≤ l.size :=
  Search.index_position_le _ _

/-- What a search finds is an element that `f` calls equal. -/
theorem getElem?_of_positionBy {l : SortedList α cmp duplicates} {f : α → Ordering} {i : Nat}
    (h : l.positionBy f = .found i) : ∃ x, l.items[i]? = some x ∧ f x = .eq := by
  obtain ⟨hi, he⟩ := Search.order_of_position_eq_found h
  rw [List.getElem?_eq_getElem hi] at he
  exact ⟨l.items[i], List.getElem?_eq_getElem hi, he⟩

/-- Where an element equal to `x` is, or would be. -/
def positionOf (l : SortedList α cmp duplicates) (x : α) : Position := l.positionBy fun y => cmp y x

/-- The first index whose element is not less than `x`. -/
def firstNotLess (l : SortedList α cmp duplicates) (x : α) : Nat :=
  (l.positionBy fun y => if cmp y x = .lt then .lt else .gt).index

/-- Puts an element at its place, before all that equal it; `false` if one equals it and duplicates are refused. -/
def add (l : SortedList α cmp duplicates) (x : α) : SortedList α cmp duplicates × Bool :=
  match l.positionOf x, duplicates with
  | .found _, .refused => (l, false)
  | .found _, .kept => (⟨l.items.insertIdx (l.firstNotLess x) x⟩, true)
  | .insertAt i, _ => (⟨l.items.insertIdx i x⟩, true)

/-- Adds elements one after the other; says whether any was added. -/
def addAll (l : SortedList α cmp duplicates) : List α → SortedList α cmp duplicates × Bool
  | [] => (l, false)
  | x :: xs =>
    let first := l.add x
    let rest := first.1.addAll xs
    (rest.1, first.2 || rest.2)

/-- Adds an element if the list as it is meets a condition. -/
def addIf (l : SortedList α cmp duplicates) (x : α) (condition : SortedList α cmp duplicates → Bool) :
    SortedList α cmp duplicates × Bool :=
  if condition l then l.add x else (l, false)

/-- Takes every element out. -/
def clear (_ : SortedList α cmp duplicates) : SortedList α cmp duplicates := empty

/-- Puts other elements in place of all there are. -/
def reset (l : SortedList α cmp duplicates) (xs : List α) : SortedList α cmp duplicates := (l.clear.addAll xs).1

/-- The list of just these elements. -/
def ofList (xs : List α) : SortedList α cmp duplicates := (empty.addAll xs).1

/-- The element that a search by `f` finds. -/
def getBy? (l : SortedList α cmp duplicates) (f : α → Ordering) : Option α :=
  match l.positionBy f with
  | .found i => l.items[i]?
  | .insertAt _ => none

/-- What a search gives is an element of the list that `f` calls equal. -/
theorem getBy?_eq_some {l : SortedList α cmp duplicates} {f : α → Ordering} {x : α} (h : l.getBy? f = some x) :
    x ∈ l.items ∧ f x = .eq := by
  unfold getBy? at h
  split at h
  · rename_i i hi
    obtain ⟨y, hy, he⟩ := getElem?_of_positionBy hi
    obtain rfl : y = x := Option.some.inj (hy.symm.trans h)
    exact ⟨List.mem_of_getElem? hy, he⟩
  · cases h

/-- The element found equal to `x`. -/
def get? (l : SortedList α cmp duplicates) (x : α) : Option α := l.getBy? fun y => cmp y x

/-- Runs `g` on the element that a search by `f` finds: what `g` answers, and the list with the element as `g` leaves it, which is not
to change its order. -/
def updateWith? {ρ : Type} (l : SortedList α cmp duplicates) (f : α → Ordering) (g : α → ρ × α) :
    Option (ρ × SortedList α cmp duplicates) :=
  match l.positionBy f with
  | .found i => (l.items[i]?).map fun y => ((g y).1, ⟨l.items.modify i fun y => (g y).2⟩)
  | .insertAt _ => none

/-- The element that a search by `f` finds, and the list with that element changed by `g`, which is not to change its order. -/
def updateBy? (l : SortedList α cmp duplicates) (f : α → Ordering) (g : α → α) :
    Option (α × SortedList α cmp duplicates) :=
  l.updateWith? f fun y => (y, g y)

/-- What a change answers is what it says of the element that was found. -/
theorem updateWith?_eq {ρ : Type} (l : SortedList α cmp duplicates) (f : α → Ordering) (g : α → ρ × α) :
    l.updateWith? f g = (l.updateBy? f fun y => (g y).2).map fun r => ((g r.1).1, r.2) := by
  unfold updateBy? updateWith?
  cases l.positionBy f with
  | found i =>
    simp only [Option.map_map]
    rfl
  | insertAt i => rfl

/-- Takes out the element found equal to `x`: that element and the rest. -/
def remove? (l : SortedList α cmp duplicates) (x : α) : Option (α × SortedList α cmp duplicates) :=
  match l.positionOf x with
  | .found i => (l.items[i]?).map fun y => (y, ⟨l.items.eraseIdx i⟩)
  | .insertAt _ => none

/-- Taking an element out makes the list shorter. -/
theorem size_of_remove? {l rest : SortedList α cmp duplicates} {x y : α} (h : l.remove? x = some (y, rest)) :
    rest.size < l.size := by
  unfold remove? at h
  split at h
  · rename_i i _
    obtain ⟨z, hz, he⟩ := Option.map_eq_some_iff.mp h
    obtain ⟨hi, -⟩ := List.getElem?_eq_some_iff.mp hz
    cases he
    simp only [size, List.length_eraseIdx, if_pos hi]
    omega
  · cases h

/-- Takes out elements equal to `x` until none is found; says whether there was one. -/
def removeEvery (l : SortedList α cmp duplicates) (x : α) : SortedList α cmp duplicates × Bool :=
  match _taken : l.remove? x with
  | some (_, rest) => ((rest.removeEvery x).1, true)
  | none => (l, false)
termination_by l.size
decreasing_by exact size_of_remove? _taken

/-- Takes out every element equal to one of these; says whether there was any. -/
def removeAll (l : SortedList α cmp duplicates) : List α → SortedList α cmp duplicates × Bool
  | [] => (l, false)
  | x :: xs =>
    let first := l.removeEvery x
    let rest := first.1.removeAll xs
    (rest.1, first.2 || rest.2)

/-- The elements from one index up to another, if both are within bounds and in order. -/
def slice? (l : SortedList α cmp duplicates) (start stop : Nat) : Option (List α) :=
  if start ≤ stop ∧ stop ≤ l.size then some ((l.items.take stop).drop start) else none

/-- The description of a list whose elements are shown by `shown`. -/
def describe (l : SortedList α cmp duplicates) (shown : α → String) : String :=
  "OrderedStore \x7b items: [" ++ ", ".intercalate (l.items.map shown) ++ "], allow_duplicates: " ++
    (if l.keepsDuplicates then "true" else "false") ++ " \x7d"

end SortedList

end Kademlia
