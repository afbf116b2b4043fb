import Kademlia.Proofs.Walk

/-!
# What a search does not look at

At each step a search for close nodes compares the two nodes beside its window, and either of them may be a far one. A far node is
never taken in before a near one, though, so as long as there are enough near nodes the far ones do not matter. Of the nodes that
share so many leading bits with the target the search takes the same ones as if there were no others (`NodeList.closest_sharing`): the
nodes that share them are one stretch of the list, and the two walks go step by step through the same places of this stretch
(`Window.Stretch.widen`), although a node beside the stretch is met in one of them and not in the other.
-/

namespace Kademlia

namespace Window

variable {distanceAt other : Nat → Option Key} {w wider : Window} {height offset : Nat}

/-! ## One step in each of two walks -/

/-- The same window a number of indexes further up. -/
def shift (offset : Nat) (w : Window) : Window := ⟨w.start + offset, w.stop + offset⟩

/-- Distances below a power of two, which stand in one stretch among others that are not below it. -/
structure Stretch (distanceAt other : Nat → Option Key) (height offset : Nat) : Prop where
  near : ∀ i d, distanceAt i = some d → d.toNat < 2 ^ height
  inside : ∀ i d, distanceAt i = some d → other (i + offset) = some d
  outside : ∀ i d, other i = some d → d.toNat < 2 ^ height → ∃ k, k + offset = i ∧ distanceAt k = some d

namespace Stretch

variable (h : Stretch distanceAt other height offset)
include h

theorem below {l : Key} (hl : w.below distanceAt = some l) : (w.shift offset).below other = some l := by
  obtain ⟨k, hk, hd⟩ := below_eq_some_iff.1 hl
  refine below_eq_some_iff.2 ⟨k + offset, ?_, h.inside k l hd⟩
  simp only [shift]
  omega

/-- A distance of the stretch is less than one that stands above the window, unless this is of the stretch too. -/
theorem lt_above {l u : Key} (hnear : l.toNat < 2 ^ height) (hless : ∀ u, distanceAt w.stop = some u → l < u)
    (hu : other (w.shift offset).stop = some u) : l < u := by
  rcases Nat.lt_or_ge u.toNat (2 ^ height) with hlt | hge
  · obtain ⟨k, hk, hd⟩ := h.outside _ u hu hlt
    obtain rfl : k = w.stop := Nat.add_right_cancel hk
    exact hless u hd
  · exact Octets.lt_iff.2 (Nat.lt_of_lt_of_le hnear hge)

/-- A distance that stands below the window is not less than one of the stretch, unless it is of the stretch too. -/
theorem not_below_lt {l u : Key} (hnear : u.toNat < 2 ^ height) (hleast : ∀ l, w.below distanceAt = some l → ¬l < u)
    (hl : (w.shift offset).below other = some l) : ¬l < u := by
  rcases Nat.lt_or_ge l.toNat (2 ^ height) with hlt | hge
  · obtain ⟨i, hi, hd⟩ := below_eq_some_iff.1 hl
    obtain ⟨k, rfl, hdk⟩ := h.outside i l hd hlt
    refine hleast l (below_eq_some_iff.2 ⟨k, ?_, hdk⟩)
    simp only [shift] at hi
    omega
  · rw [Octets.lt_iff]
    omega

/-- A window takes in the same index, whether it sees the stretch alone or also what stands beside it. -/
theorem grow (hgrow : w.grow? distanceAt = some wider) :
    (w.shift offset).grow? other = some (wider.shift offset) := by
  rcases grow?_eq_some_iff.1 hgrow with ⟨l, hl, hless, rfl⟩ | ⟨u, hu, hleast, rfl⟩
  · obtain ⟨k, hk, hd⟩ := below_eq_some_iff.1 hl
    refine grow?_eq_some_iff.2 (Or.inl ⟨l, h.below hl, ?_, ?_⟩)
    · intro u hu
      exact h.lt_above (h.near k l hd) hless hu
    · simp only [shift, Window.mk.injEq, and_true]
      omega
  · refine grow?_eq_some_iff.2 (Or.inr ⟨u, h.inside w.stop u hu, ?_, ?_⟩)
    · intro l hl
      exact h.not_below_lt (h.near w.stop u hu) hleast hl
    · simp only [shift, Window.mk.injEq, true_and]
      omega

/-- As long as the stretch has indexes left, both windows grow alike. -/
theorem widen {position length : Nat} (hlength : ∀ i, distanceAt i = none ↔ length ≤ i) (haround : w.Around position length)
    (count : Nat) (hcount : w.stop - w.start + count ≤ length) :
    Window.widen other count (w.shift offset) = (Window.widen distanceAt count w).shift offset := by
  induction count generalizing w with
  | zero => rfl
  | succ count ih =>
    cases hgrow : w.grow? distanceAt with
    | none =>
      have hall := haround.length_eq hlength hgrow
      omega
    | some wider =>
      obtain ⟨haround', hsize⟩ := haround.grow hlength hgrow
      rw [widen_of_grow?_eq_some hgrow, widen_of_grow?_eq_some (h.grow hgrow)]
      exact ih haround' (by omega)

end Stretch

end Window

namespace NodeList

variable {l : NodeList} {target : Key} {bits count : Nat}

/-! ## The nodes that share so many bits -/

/-- The nodes of a list that share so many leading bits with a key. -/
def sharing (l : NodeList) (target : Key) (bits : Nat) : NodeList := ⟨l.items.filter fun n => bits ≤ target.shared n.id⟩

theorem mem_sharing {n : Node} : n ∈ (l.sharing target bits).items ↔ n ∈ l.items ∧ bits ≤ target.shared n.id := by
  simp [sharing]

theorem ascending_sharing (h : Ascending l.items) (target : Key) (bits : Nat) : Ascending (l.sharing target bits).items :=
  List.Pairwise.sublist List.filter_sublist h

/-- What parts the nodes that share so many leading bits with a key from the others: the smaller and the greater ids. -/
structure Around (l : NodeList) (target : Key) (bits : Nat) (lower upper : List Node) : Prop where
  items : l.items = lower ++ (l.sharing target bits).items ++ upper
  lower : ∀ n ∈ lower, n.id.toNat < target.toNat ∧ ¬bits ≤ target.shared n.id
  upper : ∀ n ∈ upper, target.toNat < n.id.toNat ∧ ¬bits ≤ target.shared n.id

/-- The nodes that share so many leading bits with a key stand together. -/
theorem exists_around (h : Ascending l.items) (target : Key) (hbits : bits ≤ Key.bits) :
    ∃ lower upper, l.Around target bits lower upper := by
  obtain ⟨height, hheight, rfl⟩ : ∃ height ≤ Key.bits, bits = Key.bits - height := ⟨Key.bits - bits, by omega, by omega⟩
  let place := fun n : Node => compare (n.id.toNat / 2 ^ height) (target.toNat / 2 ^ height)
  have hshared : ∀ n : Node, Key.bits - height ≤ target.shared n.id ↔ place n = .eq := by
    intro n
    rw [Key.sub_le_shared_iff hheight, Nat.compare_eq_eq, eq_comm]
  have hanswers : l.items.Pairwise fun a b => (place b = .lt → place a = .lt) ∧ (place a = .gt → place b = .gt) := by
    refine h.imp ?_
    intro a b hab
    have hle := Nat.div_le_div_right (c := 2 ^ height) (Nat.le_of_lt (Octets.lt_iff.1 hab))
    simp only [place, Nat.compare_eq_lt, Nat.compare_eq_gt]
    omega
  have hmiddle : l.items.filter (fun n => place n = .eq) = (l.sharing target (Key.bits - height)).items := by
    refine List.filter_congr ?_
    intro n _
    rw [decide_eq_decide, hshared]
  refine ⟨l.items.filter fun n => place n = .lt, l.items.filter fun n => place n = .gt, ⟨?_, ?_, ?_⟩⟩
  · rw [← hmiddle]
    exact eq_filter_append hanswers
  · intro n hn
    have hlt : place n = .lt := of_decide_eq_true (List.mem_filter.1 hn).2
    refine ⟨Nat.lt_of_div_lt_div (Nat.compare_eq_lt.1 hlt), ?_⟩
    rw [hshared, hlt]
    exact nofun
  · intro n hn
    have hgt : place n = .gt := of_decide_eq_true (List.mem_filter.1 hn).2
    refine ⟨Nat.lt_of_div_lt_div (Nat.compare_eq_gt.1 hgt), ?_⟩
    rw [hshared, hgt]
    exact nofun

namespace Around

variable {lower upper : List Node}

/-- A target stands in the same place among those nodes, with or without the others. -/
theorem index_positionOfId (h : l.Around target bits lower upper) (hl : Ascending l.items) :
    (l.positionOfId target).index = ((l.sharing target bits).positionOfId target).index + lower.length := by
  have hlower : lower.countP (fun n => n.id < target) = lower.length := List.countP_eq_length.2 fun n hn =>
    decide_eq_true (Octets.lt_iff.2 (h.lower n hn).1)
  have hupper : upper.countP (fun n => n.id < target) = 0 := List.countP_eq_zero.2 fun n hn => by
    rw [decide_eq_true_eq, Octets.lt_iff]
    exact Nat.lt_asymm (h.upper n hn).1
  rw [NodeList.index_positionOfId hl, NodeList.index_positionOfId (ascending_sharing hl target bits), h.items, List.countP_append,
    List.countP_append, hlower, hupper]
  omega

/-- The distances of those nodes are one stretch among all distances. -/
theorem stretch (h : l.Around target bits lower upper) (hbits : bits ≤ Key.bits) :
    Window.Stretch ((l.sharing target bits).distanceAt target) (l.distanceAt target) (Key.bits - bits) lower.length := by
  have hnear : ∀ n : Node, bits ≤ target.shared n.id ↔ (target.distance n.id).toNat < 2 ^ (Key.bits - bits) := by
    intro n
    rw [← Key.sub_le_shared_iff_distance (Nat.sub_le _ _), Nat.sub_sub_self hbits]
  refine ⟨?_, ?_, ?_⟩
  · intro i d hd
    obtain ⟨n, hn, rfl⟩ := Option.map_eq_some_iff.1 hd
    exact (hnear n).1 (mem_sharing.1 (List.mem_of_getElem? hn)).2
  · intro i d hd
    obtain ⟨n, hn, rfl⟩ := Option.map_eq_some_iff.1 hd
    obtain ⟨hi, -⟩ := List.getElem?_eq_some_iff.1 hn
    rw [distanceAt, h.items, List.append_assoc, List.getElem?_append_right (Nat.le_add_left _ _), Nat.add_sub_cancel,
      List.getElem?_append_left hi, hn]
    rfl
  · intro i d hd hlt
    obtain ⟨n, hn, rfl⟩ := Option.map_eq_some_iff.1 hd
    have hshared := (hnear n).2 hlt
    rw [h.items, List.append_assoc] at hn
    have hge : lower.length ≤ i := by
      refine Nat.le_of_not_lt ?_
      intro hi
      rw [List.getElem?_append_left hi] at hn
      exact (h.lower n (List.mem_of_getElem? hn)).2 hshared
    rw [List.getElem?_append_right hge] at hn
    have hi : i - lower.length < (l.sharing target bits).items.length := by
      refine Nat.lt_of_not_le ?_
      intro hle
      rw [List.getElem?_append_right hle] at hn
      exact (h.upper n (List.mem_of_getElem? hn)).2 hshared
    rw [List.getElem?_append_left hi] at hn
    exact ⟨i - lower.length, Nat.sub_add_cancel hge, by rw [distanceAt, hn]; rfl⟩

/-- The window of a search is the one it would have among those nodes alone. -/
theorem closestWindow (h : l.Around target bits lower upper) (hl : Ascending l.items) (hbits : bits ≤ Key.bits)
    (hcount : count ≤ (l.sharing target bits).size) :
    l.closestWindow target count = ((l.sharing target bits).closestWindow target count).shift lower.length := by
  have hwiden := (h.stretch hbits).widen ((l.sharing target bits).distanceAt_eq_none_iff target)
    ((l.sharing target bits).around_start target) count (by rwa [Nat.sub_self, Nat.zero_add])
  rw [closestWindow_eq, closestWindow_eq, h.index_positionOfId hl]
  exact hwiden

/-- What lies between two bounds among those nodes lies between the shifted bounds in the list. -/
theorem slice (h : l.Around target bits lower upper) {start stop : Nat} (hstop : stop ≤ (l.sharing target bits).items.length) :
    (l.items.take (stop + lower.length)).drop (start + lower.length) = ((l.sharing target bits).items.take stop).drop start := by
  rw [h.items, List.append_assoc, Nat.add_comm stop, Nat.add_comm start, List.take_length_add_append, List.drop_length_add_append,
    List.take_append_of_le_length hstop]

end Around

/-- As long as there are enough of them, a search finds only nodes that share so many leading bits with the target, and it finds the
same ones as if there were no others. -/
theorem closest_sharing (h : Ascending l.items) (target : Key) (hcount : count ≤ (l.sharing target bits).size) :
    l.closest target count = (l.sharing target bits).closest target count := by
  rcases Nat.eq_zero_or_pos count with rfl | hpos
  · have hnone : ∀ l : NodeList, l.closest target 0 = [] := by
      intro l
      rw [← List.length_eq_zero_iff, length_closest, Nat.zero_min]
    rw [hnone, hnone]
  · obtain ⟨n, hn⟩ := List.exists_mem_of_length_pos (Nat.lt_of_lt_of_le hpos hcount)
    have hbits : bits ≤ Key.bits := (mem_sharing.1 hn).2.trans (Key.shared_le target n.id)
    obtain ⟨lower, upper, haround⟩ := exists_around h target hbits
    rw [closest_eq, closest_eq, haround.closestWindow h hbits hcount]
    exact haround.slice ((l.sharing target bits).around_closestWindow target count).stop_le

/-! ## One node more -/

/-- If all nodes found share so many leading bits with the target, there are as many that do. -/
theorem le_size_sharing (hcount : count ≤ l.size) (hfound : ∀ n ∈ l.closest target count, bits ≤ target.shared n.id) :
    count ≤ (l.sharing target bits).size := by
  have hself : (l.closest target count).filter (fun n => bits ≤ target.shared n.id) = l.closest target count :=
    List.filter_eq_self.2 fun n hn => decide_eq_true (hfound n hn)
  have hsub := (l.closest_infix target count).sublist.filter fun n => bits ≤ target.shared n.id
  have hlength := hsub.length_le
  rw [hself, length_closest, Nat.min_eq_left hcount] at hlength
  exact hlength

/-- A new node that shares fewer leading bits with a key does not come to those that share more. -/
theorem sharing_add (h : Ascending l.items) {node : Node} (hnew : ¬l.Holds node.id) (hfar : ¬bits ≤ target.shared node.id) :
    sharing (l.add node).1 target bits = l.sharing target bits := by
  obtain ⟨before, behind, hgap⟩ := exists_gap h hnew
  have hskip : (node :: behind).filter (fun n => bits ≤ target.shared n.id) = behind.filter fun n => bits ≤ target.shared n.id :=
    List.filter_cons_of_neg (by simpa using hfar)
  unfold sharing
  rw [hgap.add, hgap.items, List.filter_append, List.filter_append, hskip]

/-- A full answer is not disturbed by nodes further away: when a search finds as many nodes as asked for, a new node that shares fewer
leading bits with the target than each of them comes into the list, and the search finds the very same nodes. -/
theorem closest_add_of_shared_lt (l : NodeList) (h : Ascending l.items) (target : Key) (count : Nat) (hcount : count ≤ l.size)
    (node : Node) (hnew : ¬l.Holds node.id) (hfar : ∀ n ∈ l.closest target count, target.shared node.id < target.shared n.id) :
    let wider : NodeList := (l.add node).1
    wider.items.Perm (node :: l.items) ∧ wider.closest target count = l.closest target count := by
  intro wider
  refine ⟨add_perm h hnew, ?_⟩
  have hsharing : wider.sharing target (target.shared node.id + 1) = l.sharing target (target.shared node.id + 1) :=
    sharing_add h hnew (Nat.not_succ_le_self _)
  have henough := le_size_sharing hcount hfar
  calc wider.closest target count
      = (wider.sharing target (target.shared node.id + 1)).closest target count :=
        closest_sharing (add_ascending h hnew) target (by rwa [hsharing])
    _ = (l.sharing target (target.shared node.id + 1)).closest target count := by rw [hsharing]
    _ = l.closest target count := (closest_sharing h target henough).symm

/-- Of 8, 9 and 30 the two nearest to 10 are 8 and 9. They are found still when 12 comes to stand between them and 30, directly above the
place of 10. -/
theorem closest_add_of_shared_lt_of_neighbour :
    let node := fun k => Node.mk ⟨Key.ofNat k, .v4 (Octets.lowest 4) 0⟩ .good 0
    let l : NodeList := ⟨[node 8, node 9, node 30]⟩
    let target := Key.ofNat 10
    let wider : NodeList := (l.add (node 12)).1
    Ascending l.items ∧ ¬l.Holds (node 12).id ∧ l.closest target 2 = [node 8, node 9] ∧
      wider.items = [node 8, node 9, node 12, node 30] ∧ wider.closest target 2 = [node 8, node 9] := by
  intro node l target wider
  have hascending : Ascending l.items := by decide
  have hnew : ¬l.Holds (node 12).id := by decide
  have hfound : l.closest target 2 = [node 8, node 9] := by decide +kernel
  have hadded : wider.items = [node 8, node 9, node 12, node 30] := by decide +kernel
  have hfar : ∀ n ∈ l.closest target 2, target.shared (node 12).id < target.shared n.id := by
    rw [hfound]
    decide +kernel
  obtain ⟨-, hsame⟩ := closest_add_of_shared_lt l hascending target 2 (by decide) (node 12) hnew hfar
  exact ⟨hascending, hnew, hfound, hadded, hsame.trans hfound⟩

end NodeList

end Kademlia
