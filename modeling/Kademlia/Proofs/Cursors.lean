import Kademlia.Proofs.Window

/-!
# The rounds of a search

A search keeps the next index below its window in a cursor of its own, and asks before each round whether the window is large enough.
The cursors it starts with, and all that follow from them, have the lower cursor directly below the window (`Cursors.Adjacent`), so a
round is the growth of a window by one index (`Cursors.Adjacent.grow?_window`), and the walk is as many growths as there are indexes
still wanted (`Cursors.Adjacent.window_walk`).
-/

namespace Kademlia

namespace Cursors

variable {distanceAt : Nat → Option Key} {c next : Cursors}

/-- The lower cursor is directly below the window. -/
def Adjacent (c : Cursors) : Prop := c.low = indexBelow c.start

theorem adjacent_around (position : Nat) : (around position).Adjacent := rfl

/-- The cursors start with nothing taken. -/
@[simp] theorem size_around (position : Nat) : (around position).size = 0 := Nat.sub_self position

/-- To take the lower index moves the start of the window down by one. -/
theorem Adjacent.window_takeLow (h : c.Adjacent) {index : Nat} (hindex : c.low = some index) :
    c.takeLow.Adjacent ∧ c.start = index + 1 ∧ c.takeLow.window = ⟨index, c.high⟩ := by
  obtain ⟨low, start, high, hlow, hle⟩ := c
  subst hindex
  cases start with
  | zero => cases h
  | succ start =>
    obtain rfl : index = start := Option.some.inj h
    exact ⟨rfl, rfl, rfl⟩

/-- A round leaves the lower cursor directly below the window. -/
theorem Adjacent.step (h : c.Adjacent) (hstep : c.step? distanceAt = some next) : next.Adjacent := by
  rcases eq_of_step? hstep with ⟨index, hindex, rfl⟩ | rfl
  · exact (h.window_takeLow hindex).1
  · exact h

/-- A round takes one index. -/
theorem Adjacent.size_step (h : c.Adjacent) (hstep : c.step? distanceAt = some next) : next.size = c.size + 1 := by
  have hle := c.start_le
  rcases eq_of_step? hstep with ⟨index, hindex, rfl⟩ | rfl
  · obtain ⟨-, hstart, hwindow⟩ := h.window_takeLow hindex
    obtain ⟨hstart', hhigh⟩ := Window.mk.inj hwindow
    show c.takeLow.high - c.takeLow.start = c.high - c.start + 1
    omega
  · show c.high + 1 - c.start = c.high - c.start + 1
    omega

/-- The lower cursor asks for the distance below the window. -/
theorem Adjacent.below_window (h : c.Adjacent) : c.window.below distanceAt = c.low.bind distanceAt := by
  unfold Window.below
  rw [h, window_start]
  cases c.start with
  | zero => rfl
  | succ start => rfl

/-- A round is a growth of the window. -/
theorem Adjacent.grow?_window (h : c.Adjacent) : c.window.grow? distanceAt = (c.step? distanceAt).map window := by
  have hbelow : (if c.window.start = 0 then none else distanceAt (c.window.start - 1)) = c.low.bind distanceAt := h.below_window
  have htake : ∀ d, c.low.bind distanceAt = some d → c.takeLow.window = ⟨c.start - 1, c.high⟩ := by
    intro d hd
    obtain ⟨index, hindex, -⟩ := Option.bind_eq_some_iff.1 hd
    obtain ⟨-, hstart, hwindow⟩ := h.window_takeLow hindex
    rw [hwindow, hstart, Nat.add_sub_cancel]
  unfold step? Window.grow?
  simp only [hbelow]
  simp only [window_start, window_stop]
  cases hlower : c.low.bind distanceAt with
  | none =>
    cases distanceAt c.high with
    | none => rfl
    | some u => rfl
  | some l =>
    have hwindow := htake l hlower
    cases distanceAt c.high with
    | none => simp only [Option.map_some, hwindow]
    | some u =>
      by_cases hlt : l < u
      · simp only [if_pos hlt, Option.map_some, hwindow]
      · simp only [if_neg hlt, Option.map_some, window_takeHigh]

/-- If a round is possible, the window grows to that after the round. -/
theorem Adjacent.grow?_of_step? (h : c.Adjacent) (hstep : c.step? distanceAt = some next) :
    c.window.grow? distanceAt = some next.window := by
  rw [h.grow?_window, hstep, Option.map_some]

/-- If no round is possible, the window does not grow. -/
theorem Adjacent.grow?_of_stop (h : c.Adjacent) (hstop : c.step? distanceAt = none) : c.window.grow? distanceAt = none := by
  rw [h.grow?_window, hstop, Option.map_none]

/-- After a round one index less is wanted. -/
theorem Adjacent.sub_size_step (h : c.Adjacent) {count : Nat} (hsize : c.size < count)
    (hstep : c.step? distanceAt = some next) : count - c.size = count - next.size + 1 := by
  have := h.size_step hstep
  omega

/-- A walk is as many growths of the window as there are indexes still wanted. -/
theorem Adjacent.window_walk (h : c.Adjacent) (count : Nat) :
    (c.walk distanceAt count).window = Window.widen distanceAt (count - c.size) c.window := by
  fun_induction walk distanceAt count c with
  | case1 c hsize next hstep ih =>
    rw [h.sub_size_step hsize hstep, Window.widen_of_grow?_eq_some (h.grow?_of_step? hstep), ih (h.step hstep)]
  | case2 c hsize hstep =>
    rw [Window.widen_of_grow?_eq_none (h.grow?_of_stop hstep)]
  | case3 c hsize =>
    rw [Nat.sub_eq_zero_of_le (Nat.le_of_not_lt hsize)]
    rfl

end Cursors

/-- The window of a search is the empty one at the place of the target, grown as many times as there are nodes wanted. -/
theorem NodeList.closestWindow_eq (l : NodeList) (target : Key) (count : Nat) :
    l.closestWindow target count =
      Window.widen (l.distanceAt target) count ⟨(l.positionOfId target).index, (l.positionOfId target).index⟩ := by
  have hwalk := @Cursors.Adjacent.window_walk (l.distanceAt target) _ (Cursors.adjacent_around (l.positionOfId target).index) count
  rwa [Cursors.size_around, Nat.sub_zero] at hwalk

end Kademlia
