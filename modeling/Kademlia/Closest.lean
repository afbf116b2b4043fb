import Kademlia.Node
import Kademlia.SortedList

/-!
# Nodes close to a key

Nodes that share a long run of leading bits with a key lie next to each other in the order of ids. So the nodes close to a key are
taken as one window of the list, which starts empty where the key would stand. Two cursors walk outwards from there and take in
whichever of the neighbours of the window is nearer, until it holds as many nodes as wanted or all. Only neighbours are compared, not
the whole list. That the walk ends rests on each round taking a node (`Cursors.size_lt_of_step?`).
-/

namespace Kademlia

/-- The nodes of one family, in the order of their ids and each id once. -/
abbrev NodeList := SortedList Node Node.compareId .refused

/-- A stretch of a list, from `start` up to but not including `stop`. -/
structure Window where
  start : Nat
  stop : Nat
deriving DecidableEq, Repr

/-- The index below an index, if there is one. -/
def indexBelow : Nat → Option Nat
  | 0 => none
  | i + 1 => some i

theorem lt_of_indexBelow {start i : Nat} (h : indexBelow start = some i) : i < start := by
  cases start with
  | zero => cases h
  | succ j =>
    obtain rfl : j = i := Option.some.inj h
    exact Nat.lt_succ_self j

/-- The cursors of a walk outwards. The window taken so far is from `start` up to but not including `high`; `low` is the next index
below it, if there is one, and `high` is the next above. -/
structure Cursors where
  low : Option Nat
  start : Nat
  high : Nat
  low_lt : ∀ i, low = some i → i < start
  start_le : start ≤ high

namespace Cursors

/-- The cursors around a position, with nothing between them yet. -/
def around (position : Nat) : Cursors where
  low := indexBelow position
  start := position
  high := position
  low_lt _ := lt_of_indexBelow
  start_le := Nat.le_refl position

/-- How many indexes are taken. -/
def size (c : Cursors) : Nat := c.high - c.start

/-- The stretch between the cursors. -/
def window (c : Cursors) : Window := ⟨c.start, c.high⟩

/-- Takes the index below the window, if there is one. -/
def takeLow (c : Cursors) : Cursors :=
  match below : c.low with
  | some index =>
    { low := indexBelow index, start := index, high := c.high, low_lt := fun _ => lt_of_indexBelow
      start_le := Nat.le_trans (Nat.le_of_lt (c.low_lt index below)) c.start_le }
  | none => c

/-- Takes the index above the window. -/
def takeHigh (c : Cursors) : Cursors := { c with high := c.high + 1, start_le := Nat.le_succ_of_le c.start_le }

@[simp] theorem window_start (c : Cursors) : c.window.start = c.start := rfl
@[simp] theorem window_stop (c : Cursors) : c.window.stop = c.high := rfl
@[simp] theorem window_takeHigh (c : Cursors) : c.takeHigh.window = ⟨c.start, c.high + 1⟩ := rfl

/-- One round of a walk: the nearer of the two indexes beside the window is taken, the upper one if both are equally near; `none` if
there is nothing on either side. -/
def step? (distanceAt : Nat → Option Key) (c : Cursors) : Option Cursors :=
  let lowDistance := c.low.bind distanceAt
  let highDistance := distanceAt c.high
  match lowDistance, highDistance with
  | none, none => none
  | some _, none => some c.takeLow
  | none, some _ => some c.takeHigh
  | some l, some h => if l < h then some c.takeLow else some c.takeHigh

/-- A round takes the index below the window, and then there is one, or the index above. -/
theorem eq_of_step? {distanceAt : Nat → Option Key} {c next : Cursors} (h : c.step? distanceAt = some next) :
    (∃ index, c.low = some index ∧ next = c.takeLow) ∨ next = c.takeHigh := by
  have hlow : ∀ d, c.low.bind distanceAt = some d → ∃ index, c.low = some index := by
    intro d hd
    obtain ⟨index, hindex, -⟩ := Option.bind_eq_some_iff.1 hd
    exact ⟨index, hindex⟩
  unfold step? at h
  simp only at h
  split at h
  · cases h
  · rename_i l hl _
    obtain ⟨index, hindex⟩ := hlow l hl
    exact Or.inl ⟨index, hindex, (Option.some.inj h).symm⟩
  · exact Or.inr (Option.some.inj h).symm
  · rename_i l _ hl _
    split at h
    · obtain ⟨index, hindex⟩ := hlow l hl
      exact Or.inl ⟨index, hindex, (Option.some.inj h).symm⟩
    · exact Or.inr (Option.some.inj h).symm

/-- Each round takes something. -/
theorem size_lt_of_step? {distanceAt : Nat → Option Key} {c next : Cursors} (h : c.step? distanceAt = some next) :
    c.size < next.size := by
  have hle := c.start_le
  rcases eq_of_step? h with ⟨index, hindex, rfl⟩ | rfl
  · obtain ⟨low, start, high, hlow, _⟩ := c
    subst hindex
    have hlt := hlow index rfl
    show high - start < high - index
    omega
  · show c.high - c.start < c.high + 1 - c.start
    omega

/-- Goes round until `count` indexes are taken or there is nothing on either side. -/
def walk (distanceAt : Nat → Option Key) (count : Nat) (c : Cursors) : Cursors :=
  if c.size < count then
    match _stepped : c.step? distanceAt with
    | some next => next.walk distanceAt count
    | none => c
  else c
termination_by count - c.size
decreasing_by
  have := size_lt_of_step? _stepped
  omega

end Cursors

namespace NodeList

/-- How a search for an id goes. -/
def positionOfId (l : NodeList) (id : Key) : Position := l.positionBy fun n => compare n.id id

/-- The distance from a key of the node at an index. -/
def distanceAt (l : NodeList) (target : Key) (index : Nat) : Option Key :=
  (l.items[index]?).map fun n => target.distance n.id

/-- The window of up to `count` nodes close to a key. -/
def closestWindow (l : NodeList) (target : Key) (count : Nat) : Window :=
  ((Cursors.around (l.positionOfId target).index).walk (l.distanceAt target) count).window

/-- Up to `count` nodes close to a key, in the order of their ids. -/
def closest (l : NodeList) (target : Key) (count : Nat) : List Node :=
  if count = 0 ∨ l.size = 0 then []
  else
    let w := l.closestWindow target count
    (l.slice? w.start w.stop).getD []

end NodeList

end Kademlia
