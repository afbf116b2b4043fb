/-!
# Binary search

Finds a position in a sequence of known length of which each index can say how it orders relative to what is sought: `lt` if it
lies before it, `gt` if behind, `eq` if it is it. The search halves the range down to one candidate without ever stopping early,
so of a run of equals it ends at the last. On a sequence that is not in order it still ends at some position of the sequence or one
past it.
-/

namespace Kademlia

/-- Where a search ended: at an index that is what was sought, or at the index where it would have to be inserted. -/
inductive Position
  | found (index : Nat)
  | insertAt (index : Nat)
deriving DecidableEq, Repr

namespace Position

/-- The index, found or not. -/
def index : Position → Nat
  | found i => i
  | insertAt i => i

/-- Whether what was sought is there. -/
def isFound : Position → Bool
  | found _ => true
  | insertAt _ => false

/-- One past the last index that is not behind what was sought, in a sequence without repetitions. -/
def upperBound : Position → Nat
  | found i => i + 1
  | insertAt i => i

/-- How a position is named in descriptions. -/
def text : Position → String
  | found i => "Found(" ++ toString i ++ ")"
  | insertAt i => "InsertAt(" ++ toString i ++ ")"

end Position

namespace Search

/-- The one index left of the `size` from `base` on, after dropping half of them at a time: the upper half if its first index
lies behind what is sought, else the lower half. -/
def narrow (order : Nat → Ordering) (base size : Nat) : Nat :=
  if 1 < size then
    if order (base + size / 2) = .gt then narrow order base (size - size / 2)
    else narrow order (base + size / 2) (size - size / 2)
  else base
termination_by size

/-- The position among the indices below `size`. -/
def position (order : Nat → Ordering) (size : Nat) : Position :=
  if size = 0 then .insertAt 0
  else
    let base := narrow order 0 size
    match order base with
    | .eq => .found base
    | .lt => .insertAt (base + 1)
    | .gt => .insertAt base

/-- The search never leaves its range. -/
theorem narrow_lt (order : Nat → Ordering) (base size : Nat) (h : 0 < size) :
    base ≤ narrow order base size ∧ narrow order base size < base + size := by
  fun_induction narrow order base size with
  | case1 base size _ _ ih =>
    have := ih (by omega)
    omega
  | case2 base size _ _ ih =>
    have := ih (by omega)
    omega
  | case3 base size _ => omega

/-- An index that is found is within the range and is what was sought. -/
theorem order_of_position_eq_found {order : Nat → Ordering} {size i : Nat} (h : position order size = .found i) :
    i < size ∧ order i = .eq := by
  unfold position at h
  split at h
  · cases h
  · rename_i hs
    have := narrow_lt order 0 size (by omega)
    generalize narrow order 0 size = base at h this
    cases ho : order base <;> simp only [ho, Position.found.injEq, reduceCtorEq] at h
    subst h
    exact ⟨by omega, ho⟩

/-- The index of a position is within the range or one past its end. -/
theorem index_position_le (order : Nat → Ordering) (size : Nat) : (position order size).index ≤ size := by
  unfold position
  split
  · simp [Position.index]
  · have := narrow_lt order 0 size (by omega)
    generalize narrow order 0 size = base at this
    cases ho : order base <;> simp only [Position.index, ho] <;> omega

end Search

end Kademlia
