import Kademlia.Proofs.ClosestPrefix
import Mathlib.Data.List.Infix

/-!
# The walk of a search

A search for close nodes walks outwards from the place of the target, one index at a time. Each window on the way (`Window.trail`)
has one index more than the one before and stays within the list, so the walk ends after as many steps as nodes are found, and none of
its bounds is ever out of order or out of range (`Window.Around.length_trail`, `Window.Around.getElem?_trail`). A search for more nodes
walks the same way and goes on from there (`Window.widen_add`), so what it finds contains, in one piece, what a search for fewer finds.
The two cursors of a search go through these very windows (`NodeList.windows_eq_trail`).
-/

namespace Kademlia

namespace Window

variable {distanceAt : Nat → Option Key} {w wider : Window}

/-! ## The windows of a walk -/

/-- The windows that a window goes through as it grows so many times, or as often as it can, itself the first. -/
def trail (distanceAt : Nat → Option Key) : Nat → Window → List Window
  | 0, w => [w]
  | count + 1, w =>
    match w.grow? distanceAt with
    | some wider => w :: trail distanceAt count wider
    | none => [w]

/-- A walk goes on with the window grown once. -/
theorem trail_of_grow?_eq_some (h : w.grow? distanceAt = some wider) (count : Nat) :
    trail distanceAt (count + 1) w = w :: trail distanceAt count wider := by
  rw [trail, h]

/-- A walk ends with a window that cannot grow. -/
theorem trail_of_grow?_eq_none (h : w.grow? distanceAt = none) (count : Nat) : trail distanceAt count w = [w] := by
  cases count with
  | zero => rfl
  | succ count => rw [trail, h]

theorem head?_trail (count : Nat) (w : Window) : (trail distanceAt count w).head? = some w := by
  cases count with
  | zero => rfl
  | succ count =>
    cases hgrow : w.grow? distanceAt with
    | none => rw [trail_of_grow?_eq_none hgrow, List.head?_cons]
    | some wider => rw [trail_of_grow?_eq_some hgrow, List.head?_cons]

/-- A walk leads to the window that the search ends with. -/
theorem getLast?_trail (count : Nat) (w : Window) : (trail distanceAt count w).getLast? = some (widen distanceAt count w) := by
  induction count generalizing w with
  | zero => rfl
  | succ count ih =>
    cases hgrow : w.grow? distanceAt with
    | none => rw [trail_of_grow?_eq_none hgrow, widen_of_grow?_eq_none hgrow, List.getLast?_singleton]
    | some wider =>
      rw [trail_of_grow?_eq_some hgrow, widen_of_grow?_eq_some hgrow, List.getLast?_cons, ih]
      rfl

/-- Each window of a walk is the one before it, grown. -/
theorem isChain_trail (count : Nat) (w : Window) :
    (trail distanceAt count w).IsChain fun v wider => v.grow? distanceAt = some wider := by
  induction count generalizing w with
  | zero => exact .singleton w
  | succ count ih =>
    cases hgrow : w.grow? distanceAt with
    | none =>
      rw [trail_of_grow?_eq_none hgrow]
      exact .singleton w
    | some wider =>
      rw [trail_of_grow?_eq_some hgrow]
      refine List.isChain_cons.2 ⟨?_, ih wider⟩
      intro v hv
      rw [head?_trail] at hv
      rw [hgrow, Option.mem_def.1 hv]

section Bounds

variable {position length : Nat} (hlength : ∀ i, distanceAt i = none ↔ length ≤ i)
include hlength

/-- A walk has a step for each index that the window takes in. -/
theorem Around.length_trail (h : w.Around position length) (count : Nat) :
    (Window.trail distanceAt count w).length = min count (length - (w.stop - w.start)) + 1 := by
  induction count generalizing w with
  | zero => rw [Nat.zero_min]; rfl
  | succ count ih =>
    cases hgrow : w.grow? distanceAt with
    | none =>
      have hall := h.length_eq hlength hgrow
      rw [trail_of_grow?_eq_none hgrow, List.length_singleton]
      omega
    | some wider =>
      obtain ⟨haround, hsize⟩ := h.grow hlength hgrow
      have hstart := haround.start_le
      have hstop := haround.le_stop
      have hend := haround.stop_le
      rw [trail_of_grow?_eq_some hgrow, List.length_cons, ih haround, hsize]
      omega

/-- After so many steps of a walk the window has taken in so many indexes, and it is still within the list. -/
theorem Around.getElem?_trail {v : Window} (h : w.Around position length) (count : Nat) {k : Nat}
    (hv : (Window.trail distanceAt count w)[k]? = some v) :
    v.Around position length ∧ v.stop - v.start = w.stop - w.start + k := by
  induction k generalizing w count with
  | zero =>
    rw [← List.head?_eq_getElem?, head?_trail] at hv
    obtain rfl := Option.some.inj hv
    exact ⟨h, rfl⟩
  | succ k ih =>
    cases hgrow : w.grow? distanceAt with
    | none =>
      rw [trail_of_grow?_eq_none hgrow] at hv
      cases hv
    | some wider =>
      obtain ⟨haround, hsize⟩ := h.grow hlength hgrow
      cases count with
      | zero => cases hv
      | succ count =>
        rw [trail_of_grow?_eq_some hgrow, List.getElem?_cons_succ] at hv
        obtain ⟨hv, hlength⟩ := ih haround count hv
        exact ⟨hv, by omega⟩

end Bounds

/-! ## Longer walks -/

/-- A longer walk goes on where a shorter one ends. -/
theorem widen_add (count more : Nat) (w : Window) :
    widen distanceAt (count + more) w = widen distanceAt more (widen distanceAt count w) := by
  induction count generalizing w with
  | zero => rw [Nat.zero_add]; rfl
  | succ count ih =>
    rw [Nat.succ_add]
    cases hgrow : w.grow? distanceAt with
    | none => simp only [widen_of_grow?_eq_none hgrow]
    | some wider => rw [widen_of_grow?_eq_some hgrow, widen_of_grow?_eq_some hgrow, ih]

/-- A window only grows. -/
theorem subset_widen (count : Nat) (w : Window) :
    (widen distanceAt count w).start ≤ w.start ∧ w.stop ≤ (widen distanceAt count w).stop := by
  refine widen_induction (P := fun v => v.start ≤ w.start ∧ w.stop ≤ v.stop) ?_ count ⟨Nat.le_refl _, Nat.le_refl _⟩
  rintro v wider ⟨hstart, hstop⟩ hgrow
  obtain ⟨k, d, -, htakes, -⟩ := grow?_eq_some hgrow
  cases htakes with
  | lower hk => exact ⟨by simp only; omega, hstop⟩
  | upper hk => exact ⟨hstart, by simp only; omega⟩

end Window

/-! ## The rounds of a walk -/

namespace Cursors

variable {distanceAt : Nat → Option Key} {c : Cursors}

/-- The windows between the cursors as they walk: the one before each round, and the one at the end. -/
def windows (distanceAt : Nat → Option Key) (count : Nat) (c : Cursors) : List Window :=
  if c.size < count then
    match _stepped : c.step? distanceAt with
    | some next => c.window :: next.windows distanceAt count
    | none => [c.window]
  else [c.window]
termination_by count - c.size
decreasing_by
  have := size_lt_of_step? _stepped
  omega

/-- The cursors go through the windows of a walk, a round for each step. -/
theorem Adjacent.windows_eq (h : c.Adjacent) (count : Nat) :
    c.windows distanceAt count = Window.trail distanceAt (count - c.size) c.window := by
  fun_induction windows distanceAt count c with
  | case1 c hsize next hstep ih =>
    rw [h.sub_size_step hsize hstep, Window.trail_of_grow?_eq_some (h.grow?_of_step? hstep), ih (h.step hstep)]
  | case2 c hsize hstep =>
    rw [Window.trail_of_grow?_eq_none (h.grow?_of_stop hstep)]
  | case3 c hsize =>
    rw [Nat.sub_eq_zero_of_le (Nat.le_of_not_lt hsize)]
    rfl

end Cursors

/-- A stretch of a list lies in one piece within every longer stretch. -/
theorem slice_infix {α : Type} (xs : List α) {start stop start' stop' : Nat} (hstart : start' ≤ start) (hstop : stop ≤ stop') :
    (xs.take stop).drop start <:+: (xs.take stop').drop start' := by
  have hsuffix : (xs.take stop).drop start <:+ (xs.take stop).drop start' := by
    rw [← Nat.add_sub_of_le hstart, ← List.drop_drop]
    exact List.drop_suffix _ _
  have hprefix : (xs.take stop).drop start' <+: (xs.take stop').drop start' :=
    List.IsPrefix.drop (List.take_prefix_take_left hstop) start'
  exact hsuffix.isInfix.trans hprefix.isInfix

namespace NodeList

/-! ## Searches -/

/-- The window of a search has its bounds in order and in the list, and the search returns what lies between them. -/
theorem slice?_closestWindow (l : NodeList) (target : Key) (count : Nat) :
    l.slice? (l.closestWindow target count).start (l.closestWindow target count).stop = some (l.closest target count) := by
  have haround := l.around_closestWindow target count
  rw [closest_eq, SortedList.slice?, if_pos ⟨haround.start_le.trans haround.le_stop, haround.stop_le⟩]

/-- The nodes found are one piece of the list. -/
theorem closest_infix (l : NodeList) (target : Key) (count : Nat) : l.closest target count <:+: l.items := by
  rw [closest_eq]
  exact (List.drop_suffix _ _).isInfix.trans (List.take_prefix _ _).isInfix

/-- A search for more nodes finds in one piece what a search for fewer finds. -/
theorem closest_infix_closest (l : NodeList) (target : Key) {count more : Nat} (h : count ≤ more) :
    l.closest target count <:+: l.closest target more := by
  have hwider : l.closestWindow target more =
      Window.widen (l.distanceAt target) (more - count) (l.closestWindow target count) := by
    rw [closestWindow_eq, closestWindow_eq, ← Window.widen_add, Nat.add_sub_of_le h]
  obtain ⟨hstart, hstop⟩ := @Window.subset_widen (l.distanceAt target) (more - count) (l.closestWindow target count)
  rw [closest_eq, closest_eq, hwider]
  exact slice_infix l.items hstart hstop

/-- The cursors of a search go through the windows of a walk from the place of the target, and make a round for each node found. -/
theorem windows_eq_trail (l : NodeList) (target : Key) (count : Nat) :
    let start := (l.positionOfId target).index
    let windows := (Cursors.around start).windows (l.distanceAt target) count
    windows = Window.trail (l.distanceAt target) count ⟨start, start⟩ ∧ windows.length = (l.closest target count).length + 1 := by
  intro start windows
  have hwindows : windows = Window.trail (l.distanceAt target) count ⟨start, start⟩ := by
    have h := @Cursors.Adjacent.windows_eq (l.distanceAt target) _ (Cursors.adjacent_around start) count
    rwa [Cursors.size_around, Nat.sub_zero] at h
  have hlength := (l.around_start target).length_trail (l.distanceAt_eq_none_iff target) count
  rw [Nat.sub_self, Nat.sub_zero] at hlength
  refine ⟨hwindows, ?_⟩
  rw [hwindows, l.length_closest target count]
  exact hlength

/-- Whatever the order of the nodes, a search finds as many of them as asked for, or all, and they are one piece of the list, which
lies in one piece within what a search for more finds. It gets there in as many steps as it finds nodes. The windows it goes through
start empty at the place of the target, each grows into the next by one index, and the bounds of each are in order and within the list;
those of the last one cut out what is found. -/
theorem closest_slice (l : NodeList) (target : Key) (count : Nat) :
    let start := (l.positionOfId target).index
    let last := l.closestWindow target count
    let walk := Window.trail (l.distanceAt target) count ⟨start, start⟩
    (l.closest target count).length = min count l.items.length ∧
    l.closest target count <:+: l.items ∧
    (∀ more, count ≤ more → l.closest target count <:+: l.closest target more) ∧
    l.slice? last.start last.stop = some (l.closest target count) ∧
    walk.getLast? = some last ∧
    walk.length = min count l.items.length + 1 ∧
    (walk.IsChain fun w wider => w.grow? (l.distanceAt target) = some wider) ∧
    ∀ (k : Nat) (w : Window), walk[k]? = some w → w.start ≤ w.stop ∧ w.stop ≤ l.items.length ∧ w.stop - w.start = k := by
  intro start last walk
  have hstart := l.around_start target
  have hlength := l.distanceAt_eq_none_iff target
  have hlast : last = Window.widen (l.distanceAt target) count ⟨start, start⟩ := l.closestWindow_eq target count
  refine ⟨l.length_closest target count, l.closest_infix target count, ?_, l.slice?_closestWindow target count,
    hlast ▸ Window.getLast?_trail count _, ?_, Window.isChain_trail count _, ?_⟩
  · intro more h
    exact l.closest_infix_closest target h
  · have hwalk := hstart.length_trail hlength count
    rwa [Nat.sub_self, Nat.sub_zero] at hwalk
  · intro k w hw
    obtain ⟨haround, hsize⟩ := hstart.getElem?_trail hlength count hw
    rw [Nat.sub_self, Nat.zero_add] at hsize
    exact ⟨haround.start_le.trans haround.le_stop, haround.stop_le, hsize⟩

end NodeList

end Kademlia
