import Kademlia.Closest
import Kademlia.Proofs.Numeric

/-!
# How a window grows

A window takes in one of the two indexes beside it at a time, and of these the one with the smaller distance (`Window.Takes`,
`Window.grow?_eq_some`). So it never leaves the place where it started, never goes beyond the list, and ends with as many indexes as
were asked for, or with all (`Window.Around.length_widen`).

The distances fall towards the start in this sense: on the way there, a distance that has fallen below a power of two does not rise
to it again (`Window.Valley`). So the indexes whose distance is below a power of two are one stretch around the start. A window that grows
within the stretch holds nothing else, and a window that leaves it has taken in all of it (`Window.exact_widen`).
-/

namespace Kademlia

namespace Window

variable {distanceAt : Nat → Option Key} {w wider : Window}

/-! ## One index more -/

/-- The window with its nearer neighbour taken in, the upper one if both are equally near; `none` if it has no neighbour. -/
def grow? (distanceAt : Nat → Option Key) (w : Window) : Option Window :=
  let below := if w.start = 0 then none else distanceAt (w.start - 1)
  let above := distanceAt w.stop
  match below, above with
  | none, none => none
  | some _, none => some { w with start := w.start - 1 }
  | none, some _ => some { w with stop := w.stop + 1 }
  | some l, some h => if l < h then some { w with start := w.start - 1 } else some { w with stop := w.stop + 1 }

/-- The window after growing so many times, or as often as it can. -/
def widen (distanceAt : Nat → Option Key) : Nat → Window → Window
  | 0, w => w
  | count + 1, w =>
    match w.grow? distanceAt with
    | some wider => widen distanceAt count wider
    | none => w

/-- To grow so many times is to grow once and then the other times. -/
theorem widen_of_grow?_eq_some (h : w.grow? distanceAt = some wider) (count : Nat) :
    widen distanceAt (count + 1) w = widen distanceAt count wider := by
  rw [widen, h]

/-- A window that cannot grow stays as it is, however often it is to grow. -/
theorem widen_of_grow?_eq_none (h : w.grow? distanceAt = none) (count : Nat) : widen distanceAt count w = w := by
  cases count with
  | zero => rfl
  | succ count => rw [widen, h]

/-- Whether an index lies in a window. -/
def Holds (w : Window) (i : Nat) : Prop := w.start ≤ i ∧ i < w.stop

/-- Whether an index lies next to a window. -/
def Beside (w : Window) (i : Nat) : Prop := i + 1 = w.start ∨ i = w.stop

/-- A window with an index beside it taken in. -/
inductive Takes (w : Window) (k : Nat) : Window → Prop
  | lower (h : k + 1 = w.start) : Takes w k ⟨k, w.stop⟩
  | upper (h : k = w.stop) : Takes w k ⟨w.start, k + 1⟩

/-- A window with an index taken in has the indexes of the window and this one. -/
theorem Takes.holds_iff {k i : Nat} (h : w.Takes k wider) (hle : w.start ≤ w.stop) : wider.Holds i ↔ w.Holds i ∨ i = k := by
  cases h with
  | lower hk =>
    unfold Holds
    simp only
    omega
  | upper hk =>
    unfold Holds
    simp only
    omega

/-- The distance of the index below a window. -/
def below (distanceAt : Nat → Option Key) (w : Window) : Option Key := if w.start = 0 then none else distanceAt (w.start - 1)

/-- The distance below a window is that of the index before its start. -/
theorem below_eq_some_iff {d : Key} : w.below distanceAt = some d ↔ ∃ k, k + 1 = w.start ∧ distanceAt k = some d := by
  unfold below
  constructor
  · intro h
    split at h
    · cases h
    · exact ⟨w.start - 1, by omega, h⟩
  · rintro ⟨k, hk, hd⟩
    rw [if_neg (by omega), ← hk]
    exact hd

/-- A window grows downwards if its lower neighbour is the nearer one, and else upwards, if it has such neighbours. -/
theorem grow?_eq_some_iff :
    w.grow? distanceAt = some wider ↔
      (∃ l, w.below distanceAt = some l ∧ (∀ u, distanceAt w.stop = some u → l < u) ∧ wider = ⟨w.start - 1, w.stop⟩) ∨
      ∃ u, distanceAt w.stop = some u ∧ (∀ l, w.below distanceAt = some l → ¬l < u) ∧ wider = ⟨w.start, w.stop + 1⟩ := by
  unfold grow? below
  generalize (if w.start = 0 then none else distanceAt (w.start - 1)) = lower
  cases lower with
  | none =>
    cases distanceAt w.stop with
    | none => simp
    | some u => simp [eq_comm]
  | some l =>
    cases distanceAt w.stop with
    | none => simp [eq_comm]
    | some u =>
      by_cases hlt : l < u
      · simp [hlt, eq_comm]
      · simp [hlt, eq_comm]

/-- A window grows by the nearer one of its neighbours. -/
theorem grow?_eq_some (h : w.grow? distanceAt = some wider) :
    ∃ k d, distanceAt k = some d ∧ w.Takes k wider ∧ ∀ i e, w.Beside i → distanceAt i = some e → d.toNat ≤ e.toNat := by
  rcases grow?_eq_some_iff.1 h with ⟨l, hl, hless, rfl⟩ | ⟨u, hu, hleast, rfl⟩
  · obtain ⟨k, hk, hd⟩ := below_eq_some_iff.1 hl
    obtain rfl : k = w.start - 1 := by omega
    refine ⟨w.start - 1, l, hd, .lower hk, ?_⟩
    rintro i e (hi | rfl) he
    · obtain rfl : i = w.start - 1 := by omega
      rw [hd, Option.some.injEq] at he
      rw [he]
    · exact Nat.le_of_lt (Octets.lt_iff.1 (hless e he))
  · refine ⟨w.stop, u, hu, .upper rfl, ?_⟩
    rintro i e (hi | rfl) he
    · exact Octets.le_iff.1 (Octets.not_lt_iff_le.1 (hleast e (below_eq_some_iff.2 ⟨i, hi, he⟩)))
    · rw [hu, Option.some.injEq] at he
      rw [he]

/-- A window that does not grow has no neighbour. -/
theorem grow?_eq_none (h : w.grow? distanceAt = none) {i : Nat} (hi : w.Beside i) : distanceAt i = none := by
  unfold grow? at h
  simp only at h
  split at h
  · rename_i hbelow habove
    rcases hi with hi | rfl
    · rw [if_neg (by omega), ← hi] at hbelow
      exact hbelow
    · exact habove
  · cases h
  · cases h
  · split at h
    · cases h
    · cases h

/-- What a window has and every growth keeps, it has however often it grows. -/
theorem widen_induction {P : Window → Prop} (hstep : ∀ w wider, P w → w.grow? distanceAt = some wider → P wider)
    (count : Nat) (hw : P w) : P (widen distanceAt count w) := by
  induction count generalizing w with
  | zero => exact hw
  | succ count ih =>
    unfold widen
    cases hgrow : w.grow? distanceAt with
    | none => exact hw
    | some wider => exact ih (hstep w wider hw hgrow)

/-! ## The bounds of a window -/

/-- A window around a position of a list of so many elements. -/
structure Around (position length : Nat) (w : Window) : Prop where
  start_le : w.start ≤ position
  le_stop : position ≤ w.stop
  stop_le : w.stop ≤ length

theorem around_position {position length : Nat} (h : position ≤ length) : Around position length ⟨position, position⟩ :=
  ⟨Nat.le_refl _, Nat.le_refl _, h⟩

section Bounds

variable {position length : Nat} (hlength : ∀ i, distanceAt i = none ↔ length ≤ i)
include hlength

/-- A window stays around its position when it grows, and has one index more. -/
theorem Around.grow (h : w.Around position length) (hgrow : w.grow? distanceAt = some wider) :
    wider.Around position length ∧ wider.stop - wider.start = w.stop - w.start + 1 := by
  obtain ⟨k, d, hk, htakes, -⟩ := grow?_eq_some hgrow
  obtain ⟨hstart, hstop, hend⟩ := h
  have hlt : k < length := by
    refine Nat.lt_of_not_le ?_
    intro hle
    rw [(hlength k).2 hle] at hk
    cases hk
  cases htakes with
  | lower heq =>
    refine ⟨⟨?_, hstop, hend⟩, ?_⟩
    · simp only
      omega
    · simp only
      omega
  | upper heq =>
    refine ⟨⟨hstart, ?_, hlt⟩, ?_⟩
    · simp only
      omega
    · simp only
      omega

/-- A window that does not grow is the whole list. -/
theorem Around.length_eq (h : w.Around position length) (hgrow : w.grow? distanceAt = none) :
    w.stop - w.start = length := by
  obtain ⟨hstart, hstop, hend⟩ := h
  have hstop' : length ≤ w.stop := (hlength w.stop).1 (grow?_eq_none hgrow (Or.inr rfl))
  have hstart' : w.start = 0 := by
    refine Nat.eq_zero_of_not_pos ?_
    intro hpos
    have := (hlength (w.start - 1)).1 (grow?_eq_none hgrow (Or.inl (by omega)))
    omega
  omega

/-- A window stays around its position however often it grows. -/
theorem Around.widen (h : w.Around position length) (count : Nat) : (widen distanceAt count w).Around position length :=
  widen_induction (fun _ _ hw hgrow => (hw.grow hlength hgrow).1) count h

/-- A window grows by as many indexes as asked for, or to the whole list. -/
theorem Around.length_widen (h : w.Around position length) (count : Nat) :
    (Window.widen distanceAt count w).stop - (Window.widen distanceAt count w).start =
      min (w.stop - w.start + count) length := by
  induction count generalizing w with
  | zero =>
    have hend := h.stop_le
    show w.stop - w.start = min (w.stop - w.start + 0) length
    omega
  | succ count ih =>
    unfold Window.widen
    cases hgrow : w.grow? distanceAt with
    | none =>
      have := h.length_eq hlength hgrow
      simp only
      omega
    | some wider =>
      obtain ⟨haround, hsize⟩ := h.grow hlength hgrow
      simp only
      rw [ih haround, hsize, Nat.add_right_comm, Nat.add_assoc]

end Bounds

/-! ## Stretches of small distance -/

/-- An index whose distance is below a power of two. -/
def Near (distanceAt : Nat → Option Key) (height i : Nat) : Prop := ∃ d, distanceAt i = some d ∧ d.toNat < 2 ^ height

/-- On the way from an index to the position, the distances that have fallen below a power of two stay below it. -/
def Valley (distanceAt : Nat → Option Key) (position : Nat) : Prop :=
  ∀ height i j, (i ≤ j ∧ j < position) ∨ (position ≤ j ∧ j ≤ i) → Near distanceAt height i → Near distanceAt height j

/-- A window of which every index is near, or that holds every index that is near. -/
def Exact (distanceAt : Nat → Option Key) (height : Nat) (w : Window) : Prop :=
  (∀ i, w.Holds i → Near distanceAt height i) ∨ ∀ i, Near distanceAt height i → w.Holds i

section Exact

variable {position length height : Nat} (hvalley : Valley distanceAt position)
include hvalley

/-- If a near index is left out, then so is one beside the window. -/
theorem Around.exists_beside {i : Nat} (h : w.Around position length) (hi : Near distanceAt height i) (hout : ¬w.Holds i) :
    ∃ j, w.Beside j ∧ Near distanceAt height j := by
  obtain ⟨hstart, hstop, hend⟩ := h
  rcases Nat.lt_or_ge i w.start with hlt | hge
  · refine ⟨w.start - 1, Or.inl (by omega), hvalley height i _ (Or.inl ⟨?_, ?_⟩) hi⟩
    · omega
    · omega
  · have hle : w.stop ≤ i := Nat.le_of_not_lt fun hlt => hout ⟨hge, hlt⟩
    exact ⟨w.stop, Or.inr rfl, hvalley height i _ (Or.inr ⟨hstop, hle⟩) hi⟩

/-- A window that has only near indexes, or all of them, stays so when it grows. -/
theorem Exact.grow (h : w.Around position length) (hexact : w.Exact distanceAt height)
    (hgrow : w.grow? distanceAt = some wider) : wider.Exact distanceAt height := by
  obtain ⟨k, d, hk, htakes, hmin⟩ := grow?_eq_some hgrow
  have hholds : ∀ i, wider.Holds i ↔ w.Holds i ∨ i = k := fun i => htakes.holds_iff (h.start_le.trans h.le_stop)
  rcases hexact with hall | hevery
  · rcases Nat.lt_or_ge d.toNat (2 ^ height) with hlt | hge
    · refine Or.inl ?_
      intro i hi
      rcases (hholds i).1 hi with hi | rfl
      · exact hall i hi
      · exact ⟨d, hk, hlt⟩
    · -- the nearest neighbour is not near, so no near index is left outside
      refine Or.inr fun i hi => (hholds i).2 (Or.inl ?_)
      by_cases hin : w.Holds i
      · exact hin
      · obtain ⟨j, hbeside, e, he, hlt⟩ := h.exists_beside hvalley hi hin
        have := hmin j e hbeside he
        omega
  · exact Or.inr fun i hi => (hholds i).2 (Or.inl (hevery i hi))

/-- A window that has grown from a position of a valley holds only near indexes or all of them. -/
theorem exact_widen (hlength : ∀ i, distanceAt i = none ↔ length ≤ i) (hposition : position ≤ length) (count : Nat) :
    (Window.widen distanceAt count ⟨position, position⟩).Exact distanceAt height := by
  have hstart := around_position hposition
  have hempty : Exact distanceAt height ⟨position, position⟩ := Or.inl fun i hi => absurd hi.1 (Nat.not_le.2 hi.2)
  refine (widen_induction (P := fun w => w.Around position length ∧ w.Exact distanceAt height) ?_ count ⟨hstart, hempty⟩).2
  rintro w wider ⟨haround, hexact⟩ hgrow
  exact ⟨(haround.grow hlength hgrow).1, hexact.grow hvalley haround hgrow⟩

end Exact

end Window

end Kademlia
