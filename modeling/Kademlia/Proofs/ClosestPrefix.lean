import Kademlia.Proofs.Block
import Kademlia.Proofs.Cursors

/-!
# Closest nodes are exact up to the common prefix

A search for nodes close to a target compares neighbours only and does not always find the nearest ones. It is exact up to the
common prefix, though: a node left out never shares more leading bits with the target than a node found. For in the order of ids
the nodes that share so many bits with the target lie together around its place (`NodeList.valley`), and a window that grows by the
nearer neighbour takes in such a stretch before it goes on (`Window.exact_widen`).
-/

namespace Kademlia

/-- Of two keys one that shares as many leading bits with a key is less than twice as far from it. -/
theorem Key.distance_lt_of_shared_le {a near far : Key} (hne : a ≠ far) (h : a.shared far ≤ a.shared near) :
    (a.distance near).toNat < 2 * (a.distance far).toNat := by
  have hfar := Key.shared_le a far
  have hnear : (a.distance near).toNat < 2 ^ (Key.bits - a.shared far) :=
    (Key.sub_le_shared_iff_distance (Nat.sub_le _ _)).1 (by omega)
  cases hheight : Key.bits - a.shared far with
  | zero =>
    -- a key that shares all bits is the key itself
    exact absurd (Key.bits_le_shared_iff.1 (by omega)) hne
  | succ height =>
    rw [hheight, Nat.pow_succ] at hnear
    have hge : ¬(a.distance far).toNat < 2 ^ height := by
      rw [← Key.sub_le_shared_iff_distance (by omega)]
      omega
    omega

namespace NodeList

variable {l : NodeList} {target : Key}

/-! ## Distances along the list -/

theorem distanceAt_eq_none_iff (l : NodeList) (target : Key) (i : Nat) : l.distanceAt target i = none ↔ l.size ≤ i := by
  rw [distanceAt, Option.map_eq_none_iff, List.getElem?_eq_none_iff]
  rfl

/-- An index is near if its node agrees with the target after the last bits are cut off. -/
theorem near_iff {height i : Nat} :
    Window.Near (l.distanceAt target) height i ↔
      ∃ n, l.items[i]? = some n ∧ target.toNat / 2 ^ height = n.id.toNat / 2 ^ height := by
  unfold Window.Near distanceAt
  constructor
  · rintro ⟨d, hd, hlt⟩
    obtain ⟨n, hn, rfl⟩ := Option.map_eq_some_iff.1 hd
    exact ⟨n, hn, Key.distance_lt_iff.1 hlt⟩
  · rintro ⟨n, hn, heq⟩
    exact ⟨target.distance n.id, by rw [hn]; rfl, Key.distance_lt_iff.2 heq⟩

/-- Between two numbers of one quotient lie only numbers of this quotient. -/
theorem div_eq_of_between {a b c k : Nat} (hab : a ≤ b) (hbc : b ≤ c) (h : a / k = c / k) : b / k = a / k := by
  have hle := Nat.div_le_div_right (c := k) hab
  have hge := Nat.div_le_div_right (c := k) hbc
  omega

/-- The distances from a target fall towards its position. -/
theorem valley (h : Ascending l.items) (target : Key) :
    Window.Valley (l.distanceAt target) (l.positionOfId target).index := by
  obtain ⟨before, rest, hitems, hindex, hbefore, hrest⟩ := exists_split h target
  intro height i j hij hi
  rw [near_iff] at hi ⊢
  obtain ⟨a, ha, heq⟩ := hi
  rw [hindex] at hij
  rcases hij with ⟨hle, hlt⟩ | ⟨hge, hle⟩
  · have hb : l.items[j]? = some before[j] := by
      rw [hitems, List.getElem?_append_left hlt, List.getElem?_eq_getElem hlt]
    have hbetween := div_eq_of_between (h.toNat_le hle ha hb) (Nat.le_of_lt (hbefore _ (List.getElem_mem hlt))) heq.symm
    exact ⟨before[j], hb, heq.trans hbetween.symm⟩
  · obtain ⟨hi', -⟩ := List.getElem?_eq_some_iff.1 ha
    have hb : l.items[j]? = some l.items[j] := List.getElem?_eq_getElem (by omega)
    have hmem : l.items[j] ∈ rest := by
      refine List.mem_of_getElem? (i := j - before.length) ?_
      rw [← hb, hitems, List.getElem?_append_right hge]
    have hbetween := div_eq_of_between (hrest _ hmem) (h.toNat_le hle hb ha) heq
    exact ⟨l.items[j], hb, hbetween.symm⟩

/-! ## The nodes found -/

/-- A search starts with no nodes at the position of the target. -/
theorem around_start (l : NodeList) (target : Key) :
    Window.Around (l.positionOfId target).index l.size ⟨(l.positionOfId target).index, (l.positionOfId target).index⟩ :=
  Window.around_position (l.index_positionBy_le _)

/-- The window of a search lies in the list, around the position of the target. -/
theorem around_closestWindow (l : NodeList) (target : Key) (count : Nat) :
    (l.closestWindow target count).Around (l.positionOfId target).index l.size := by
  rw [closestWindow_eq]
  exact (l.around_start target).widen (l.distanceAt_eq_none_iff target) count

/-- The window of a search has as many indexes as asked for, or all. -/
theorem size_closestWindow (l : NodeList) (target : Key) (count : Nat) :
    (l.closestWindow target count).stop - (l.closestWindow target count).start = min count l.size := by
  have hlength := (l.around_start target).length_widen (l.distanceAt_eq_none_iff target) count
  rwa [← closestWindow_eq, Nat.sub_self, Nat.zero_add] at hlength

/-- A search finds the nodes of its window. -/
theorem closest_eq (l : NodeList) (target : Key) (count : Nat) :
    l.closest target count =
      (l.items.take (l.closestWindow target count).stop).drop (l.closestWindow target count).start := by
  have haround := l.around_closestWindow target count
  have hsize := l.size_closestWindow target count
  unfold closest
  split
  · -- there is nothing to look for, or nothing to find
    rename_i hnone
    refine (List.drop_eq_nil_of_le ?_).symm
    rw [List.length_take]
    omega
  · simp only [SortedList.slice?]
    rw [if_pos ⟨haround.start_le.trans haround.le_stop, haround.stop_le⟩]
    rfl

/-- A node is found if its index lies in the window. -/
theorem mem_closest_iff {count : Nat} {n : Node} :
    n ∈ l.closest target count ↔ ∃ i, (l.closestWindow target count).Holds i ∧ l.items[i]? = some n := by
  rw [closest_eq, List.mem_iff_getElem?]
  constructor
  · rintro ⟨k, hk⟩
    rw [List.getElem?_drop, List.getElem?_take] at hk
    split at hk
    · rename_i hlt
      exact ⟨_, ⟨Nat.le_add_right _ k, hlt⟩, hk⟩
    · cases hk
  · rintro ⟨i, ⟨hstart, hstop⟩, hi⟩
    refine ⟨i - (l.closestWindow target count).start, ?_⟩
    rw [List.getElem?_drop, List.getElem?_take, Nat.add_sub_of_le hstart, if_pos hstop]
    exact hi

/-- A search finds as many nodes as asked for, or all. -/
theorem length_closest (l : NodeList) (target : Key) (count : Nat) :
    (l.closest target count).length = min count l.size := by
  have haround := l.around_closestWindow target count
  rw [closest_eq, List.length_drop, List.length_take, show min _ l.items.length = _ from Nat.min_eq_left haround.stop_le]
  exact l.size_closestWindow target count

/-- A node left out shares no more leading bits with the target than a node found. -/
theorem shared_le_of_closest (h : Ascending l.items) {count : Nat} {n other : Node} (hn : n ∈ l.closest target count)
    (hother : other ∈ l.items) (hout : other ∉ l.closest target count) : target.shared other.id ≤ target.shared n.id := by
  obtain ⟨i, hi, hget⟩ := mem_closest_iff.1 hn
  obtain ⟨j, hj⟩ := List.mem_iff_getElem?.1 hother
  have hjout : ¬(l.closestWindow target count).Holds j := fun hholds => hout (mem_closest_iff.2 ⟨j, hholds, hj⟩)
  -- the stretch of those that share as many bits with the target as the node left out
  have hheight := Nat.sub_le Key.bits (target.shared other.id)
  have hle := Key.shared_le target other.id
  have hnear : Window.Near (l.distanceAt target) (Key.bits - target.shared other.id) j :=
    near_iff.2 ⟨other, hj, (Key.sub_le_shared_iff hheight).1 (by omega)⟩
  have hexact : (l.closestWindow target count).Exact (l.distanceAt target) (Key.bits - target.shared other.id) := by
    rw [closestWindow_eq]
    exact Window.exact_widen (l.valley h target) (l.distanceAt_eq_none_iff target) (l.index_positionBy_le _) count
  rcases hexact with hall | hevery
  · obtain ⟨m, hm, heq⟩ := near_iff.1 (hall i hi)
    obtain rfl : n = m := Option.some.inj (hget.symm.trans hm)
    have := (Key.sub_le_shared_iff hheight).2 heq
    omega
  · exact absurd (hevery j hnear) hjout

/-- A search that finds anything finds the node of the very id looked for. -/
theorem mem_closest_of_id_eq (h : Ascending l.items) {count : Nat} {n found : Node} (hn : n ∈ l.items) (hid : n.id = target)
    (hfound : found ∈ l.closest target count) : n ∈ l.closest target count := by
  by_cases hin : n ∈ l.closest target count
  · exact hin
  · have hle := shared_le_of_closest h hfound hn hin
    have hself : target = found.id :=
      Key.bits_le_shared_iff.1 ((Key.bits_le_shared_iff.2 hid.symm).trans hle)
    obtain ⟨i, -, hi⟩ := mem_closest_iff.1 hfound
    obtain rfl : n = found := h.eq_of_id_eq hn (List.mem_of_getElem? hi) (hid.trans hself)
    exact hfound

/-- A search finds as many nodes as asked for, or all, and is exact up to the common prefix: a node left out never shares more leading
bits with the target than a node found, so that it is more than half as far, and a node of the very id looked for is found if any is. -/
theorem closest_exact (l : NodeList) (h : Ascending l.items) (target : Key) (count : Nat) :
    (l.closest target count).length = min count l.items.length ∧
    (∀ n ∈ l.closest target count, ∀ other ∈ l.items, other ∉ l.closest target count →
      target.shared other.id ≤ target.shared n.id ∧
        (target.distance n.id).toNat < 2 * (target.distance other.id).toNat) ∧
    (1 ≤ count → ∀ n ∈ l.items, n.id = target → n ∈ l.closest target count) := by
  refine ⟨l.length_closest target count, ?_, ?_⟩
  · intro n hn other hother hout
    have hshared := shared_le_of_closest h hn hother hout
    refine ⟨hshared, Key.distance_lt_of_shared_le ?_ hshared⟩
    intro hself
    exact hout (mem_closest_of_id_eq h hother hself.symm hn)
  · intro hcount n hn hid
    have hpos : 0 < (l.closest target count).length := by
      rw [length_closest]
      exact Nat.lt_min.2 ⟨hcount, List.length_pos_of_mem hn⟩
    obtain ⟨found, hfound⟩ := List.exists_mem_of_length_pos hpos
    exact mem_closest_of_id_eq h hn hid hfound

/-- Of the ids 8 and 9 the nearer one to 10 is 8. A search for one node finds 9, which shares as many bits with 10. -/
theorem closest_exact_of_two :
    let node := fun k => Node.mk ⟨Key.ofNat k, .v4 (Octets.lowest 4) 0⟩ .good 0
    let l : NodeList := ⟨[node 8, node 9]⟩
    let target := Key.ofNat 10
    Ascending l.items ∧ l.closest target 1 = [node 9] ∧
      target.shared (node 8).id ≤ target.shared (node 9).id ∧
      (target.distance (node 9).id).toNat < 2 * (target.distance (node 8).id).toNat := by
  intro node l target
  have hascending : Ascending l.items := by decide
  have hfound : l.closest target 1 = [node 9] := by decide +kernel
  have hin : node 9 ∈ l.closest target 1 := by rw [hfound]; exact List.mem_singleton_self _
  have hout : node 8 ∉ l.closest target 1 := by rw [hfound]; decide
  exact ⟨hascending, hfound, (closest_exact l hascending target 1).2.1 (node 9) hin (node 8) List.mem_cons_self hout⟩

end NodeList

end Kademlia
