import Kademlia.Closest
import Kademlia.Proofs.Lookup
import Kademlia.Proofs.Numeric
import Mathlib.Data.List.Perm.Basic

/-!
# Node lists in ascending order

A node list is `Ascending` when the ids of its nodes strictly ascend, so each id is there once. On such a list a search for an id
meets the one node with that id or the gap where it would stand; its position is a count of nodes. A node with a new id goes into
its gap, one with a known id is refused, and a report about a node changes that node where it stands.
-/

namespace Kademlia

/-- A key compares as less if its value is. -/
theorem compare_eq_lt_iff {a b : Key} : compare a b = .lt ↔ a.toNat < b.toNat := by
  rw [Octets.compare_eq, Nat.compare_eq_lt]

theorem compare_eq_gt_iff {a b : Key} : compare a b = .gt ↔ b.toNat < a.toNat := by
  rw [Octets.compare_eq, Nat.compare_eq_gt]

/-- Only a key itself compares as equal. -/
theorem compare_eq_eq_iff {a b : Key} : compare a b = .eq ↔ a = b := by
  rw [Octets.compare_eq, Nat.compare_eq_eq, Octets.toNat_eq_iff]

/-- Nodes whose ids strictly ascend. -/
def Ascending (nodes : List Node) : Prop := nodes.Pairwise fun a b => a.id < b.id

instance (nodes : List Node) : Decidable (Ascending nodes) :=
  inferInstanceAs (Decidable (nodes.Pairwise fun a b => a.id < b.id))

namespace Ascending

variable {nodes : List Node}

/-- Two nodes of the list with one id are the same node. -/
theorem eq_of_id_eq (h : Ascending nodes) {a b : Node} (ha : a ∈ nodes) (hb : b ∈ nodes) (hid : a.id = b.id) : a = b := by
  induction nodes with
  | nil => cases ha
  | cons c nodes ih =>
    obtain ⟨hc, hnodes⟩ := List.pairwise_cons.1 h
    rcases List.mem_cons.1 ha with rfl | ha' <;> rcases List.mem_cons.1 hb with rfl | hb'
    · rfl
    · have := Octets.lt_iff.1 (hc b hb')
      rw [hid] at this
      omega
    · have := Octets.lt_iff.1 (hc a ha')
      rw [hid] at this
      omega
    · exact ih hnodes ha' hb'

/-- A later node has no smaller id. -/
theorem toNat_le (h : Ascending nodes) {i j : Nat} {a b : Node} (hij : i ≤ j) (ha : nodes[i]? = some a)
    (hb : nodes[j]? = some b) : a.id.toNat ≤ b.id.toNat := by
  obtain ⟨hi, rfl⟩ := List.getElem?_eq_some_iff.1 ha
  obtain ⟨hj, rfl⟩ := List.getElem?_eq_some_iff.1 hb
  rcases Nat.lt_or_eq_of_le hij with hlt | rfl
  · exact Nat.le_of_lt (Octets.lt_iff.1 (List.pairwise_iff_getElem.1 h i j hi hj hlt))
  · exact Nat.le_refl _

/-- No id occurs twice. -/
theorem nodup_ids (h : Ascending nodes) : (nodes.map Node.id).Nodup := by
  refine List.pairwise_map.2 (h.imp ?_)
  intro a b hab heq
  rw [heq, Octets.lt_iff] at hab
  exact Nat.lt_irrefl _ hab

/-- A list whose ids are those of an ascending list is ascending. -/
theorem of_map_id_eq {others : List Node} (h : Ascending nodes) (hids : others.map Node.id = nodes.map Node.id) :
    Ascending others := by
  have hpair : (nodes.map Node.id).Pairwise fun a b => a < b := List.pairwise_map.2 h
  rw [← hids] at hpair
  exact List.pairwise_map.1 hpair

/-- Ids that ascend within bounds are at most as many as there are numbers within them. -/
theorem length_le (h : Ascending nodes) {start stop : Nat}
    (hbounds : ∀ n ∈ nodes, start ≤ n.id.toNat ∧ n.id.toNat < stop) : nodes.length ≤ stop - start := by
  induction nodes generalizing start with
  | nil => exact Nat.zero_le _
  | cons c nodes ih =>
    obtain ⟨hc, hnodes⟩ := List.pairwise_cons.1 h
    have hhead := hbounds c (by simp)
    have htail : nodes.length ≤ stop - (c.id.toNat + 1) := ih hnodes fun n hn =>
      ⟨Octets.lt_iff.1 (hc n hn), (hbounds n (by simp [hn])).2⟩
    rw [List.length_cons]
    omega

end Ascending

namespace NodeList

variable {l : NodeList}

/-- Whether there is a node with an id. -/
def Holds (l : NodeList) (id : Key) : Prop := ∃ n ∈ l.items, n.id = id

instance (l : NodeList) (id : Key) : Decidable (l.Holds id) :=
  inferInstanceAs (Decidable (∃ n ∈ l.items, n.id = id))

/-- What a search for an id meets: the node with this id. -/
structure Met (l : NodeList) (id : Key) (before : List Node) (node : Node) (behind : List Node) : Prop where
  items : l.items = before ++ node :: behind
  lt : ∀ n ∈ before, compare n.id id = .lt
  eq : node.id = id
  gt : ∀ n ∈ behind, compare n.id id = .gt

/-- What a search for an id that is not there meets: the gap between smaller and greater ids. -/
structure Gap (l : NodeList) (id : Key) (before behind : List Node) : Prop where
  items : l.items = before ++ behind
  lt : ∀ n ∈ before, compare n.id id = .lt
  gt : ∀ n ∈ behind, compare n.id id = .gt

/-- A search for an id meets the node that has it, or the gap where it would stand. -/
theorem met_or_gap (h : Ascending l.items) (id : Key) :
    (∃ before node behind, l.Met id before node behind) ∨ ∃ before behind, l.Gap id before behind := by
  have hmono : l.items.Pairwise fun a b => compare b.id id ≠ .gt → compare a.id id = .lt := by
    refine h.imp ?_
    intro a b hab hb
    rw [ne_eq, compare_eq_gt_iff] at hb
    have := Octets.lt_iff.1 hab
    exact compare_eq_lt_iff.2 (by omega)
  rcases Kademlia.met_or_gap hmono with ⟨before, x, behind, h1, h2, h3, h4⟩ | ⟨before, behind, h1, h2, h3⟩
  · exact Or.inl ⟨before, x, behind, h1, h2, compare_eq_eq_iff.1 h3, h4⟩
  · exact Or.inr ⟨before, behind, h1, h2, h3⟩

theorem Met.compare_node {id : Key} {before behind : List Node} {node : Node} (h : l.Met id before node behind) :
    compare node.id id = .eq := compare_eq_eq_iff.2 h.eq

theorem Met.holds {id : Key} {before behind : List Node} {node : Node} (h : l.Met id before node behind) :
    l.Holds id := ⟨node, by simp [h.items], h.eq⟩

/-- An id that falls into a gap is not held. -/
theorem Gap.not_holds {id : Key} {before behind : List Node} (h : l.Gap id before behind) : ¬l.Holds id := by
  rintro ⟨n, hn, rfl⟩
  rw [h.items, List.mem_append] at hn
  rcases hn with hn | hn
  · have := h.lt n hn
    rw [compare_eq_eq_iff.2 rfl] at this
    cases this
  · have := h.gt n hn
    rw [compare_eq_eq_iff.2 rfl] at this
    cases this

/-- A search for a known id meets its node. -/
theorem exists_met (h : Ascending l.items) {id : Key} (hid : l.Holds id) :
    ∃ before node behind, l.Met id before node behind := by
  rcases met_or_gap h id with hmet | ⟨before, behind, hgap⟩
  · exact hmet
  · exact absurd hid hgap.not_holds

/-- A search for a new id meets its gap. -/
theorem exists_gap (h : Ascending l.items) {id : Key} (hid : ¬l.Holds id) : ∃ before behind, l.Gap id before behind := by
  rcases met_or_gap h id with ⟨before, node, behind, hmet⟩ | hgap
  · exact absurd hmet.holds hid
  · exact hgap

/-! ## Positions are counts -/

/-- The search finds the index behind all smaller ids. -/
theorem Met.positionOfId {id : Key} {before behind : List Node} {node : Node} (h : l.Met id before node behind) :
    l.positionOfId id = .found before.length :=
  SortedList.positionBy_found h.items h.lt h.compare_node h.gt

/-- The search ends at the index behind all smaller ids. -/
theorem Gap.positionOfId {id : Key} {before behind : List Node} (h : l.Gap id before behind) :
    l.positionOfId id = .insertAt before.length :=
  SortedList.positionBy_gap h.items h.lt h.gt

/-- The search for an id finds something if the id is held. -/
theorem isFound_positionOfId (h : Ascending l.items) (id : Key) : (l.positionOfId id).isFound = true ↔ l.Holds id := by
  rcases met_or_gap h id with ⟨before, node, behind, hmet⟩ | ⟨before, behind, hgap⟩
  · rw [hmet.positionOfId]
    exact ⟨fun _ => hmet.holds, fun _ => rfl⟩
  · rw [hgap.positionOfId]
    exact ⟨(nomatch ·), fun hc => absurd hc hgap.not_holds⟩

end NodeList

/-- A count by a predicate that is one of two exclusive ones. -/
theorem countP_eq_add {p q r : Node → Bool} {nodes : List Node} (h : ∀ n, p n = (q n || r n))
    (hqr : ∀ n, (q n && r n) = false) : nodes.countP p = nodes.countP q + nodes.countP r := by
  induction nodes with
  | nil => rfl
  | cons n nodes ih =>
    have hn := hqr n
    rw [List.countP_cons, List.countP_cons, List.countP_cons, ih, h n]
    cases hq : q n <;> cases hr : r n
    · simp
    · simp only [Bool.false_or, if_true, Bool.false_eq_true, if_false]
      omega
    · simp only [Bool.or_false, if_true, Bool.false_eq_true, if_false]
      omega
    · rw [hq, hr] at hn
      cases hn

/-- The nodes up to a key are those of a part of them, and the others up to it. -/
theorem countP_le_eq_add {p : Node → Bool} {high : Key} (h : ∀ n, p n = true → n.id ≤ high) (nodes : List Node) :
    nodes.countP (fun n => n.id ≤ high) = nodes.countP p + nodes.countP fun n => !p n && n.id ≤ high := by
  refine countP_eq_add (fun n => ?_) fun n => ?_
  · cases hn : p n with
    | false => rfl
    | true => exact decide_eq_true (h n hn)
  · cases p n <;> rfl

namespace NodeList

variable {l : NodeList}

/-- The index of a position parts the nodes of smaller ids from the others. -/
theorem exists_split (h : Ascending l.items) (id : Key) :
    ∃ before rest, l.items = before ++ rest ∧ (l.positionOfId id).index = before.length ∧
      (∀ n ∈ before, n.id.toNat < id.toNat) ∧ ∀ n ∈ rest, id.toNat ≤ n.id.toNat := by
  rcases met_or_gap h id with ⟨before, node, behind, hmet⟩ | ⟨before, behind, hgap⟩
  · refine ⟨before, node :: behind, hmet.items, by rw [hmet.positionOfId]; rfl, ?_, ?_⟩
    · exact fun n hn => compare_eq_lt_iff.1 (hmet.lt n hn)
    · refine List.forall_mem_cons.2 ⟨?_, fun n hn => Nat.le_of_lt (compare_eq_gt_iff.1 (hmet.gt n hn))⟩
      rw [hmet.eq]
  · refine ⟨before, behind, hgap.items, by rw [hgap.positionOfId]; rfl, ?_, ?_⟩
    · exact fun n hn => compare_eq_lt_iff.1 (hgap.lt n hn)
    · exact fun n hn => Nat.le_of_lt (compare_eq_gt_iff.1 (hgap.gt n hn))

/-- The index of a position is the number of smaller ids. -/
theorem index_positionOfId (h : Ascending l.items) (id : Key) :
    (l.positionOfId id).index = l.items.countP fun n => n.id < id := by
  obtain ⟨before, rest, hitems, hindex, hbefore, hrest⟩ := exists_split h id
  rw [hindex, hitems, countP_append_eq_length]
  · exact fun n hn => decide_eq_true (Octets.lt_iff.2 (hbefore n hn))
  · intro n hn
    rw [decide_eq_false_iff_not, Octets.lt_iff]
    exact Nat.not_lt.2 (hrest n hn)

/-- The upper bound of a position is the number of ids that are not greater. -/
theorem upperBound_positionOfId (h : Ascending l.items) (id : Key) :
    (l.positionOfId id).upperBound = l.items.countP fun n => n.id ≤ id := by
  have hlt : ∀ n : Node, compare n.id id = .lt → decide (n.id ≤ id) = true := by
    intro n hn
    have := compare_eq_lt_iff.1 hn
    rw [decide_eq_true_eq, Octets.le_iff]
    omega
  have hgt : ∀ n : Node, compare n.id id = .gt → decide (n.id ≤ id) = false := by
    intro n hn
    have := compare_eq_gt_iff.1 hn
    rw [decide_eq_false_iff_not, Octets.le_iff]
    omega
  rcases met_or_gap h id with ⟨before, node, behind, hmet⟩ | ⟨before, behind, hgap⟩
  · have hsplit : before ++ node :: behind = (before ++ [node]) ++ behind := by simp
    rw [hmet.positionOfId, hmet.items, hsplit, countP_append_eq_length]
    · simp [Position.upperBound]
    · intro n hn
      rcases List.mem_append.1 hn with hn | hn
      · exact hlt n (hmet.lt n hn)
      · rw [List.mem_singleton.1 hn, hmet.eq, decide_eq_true_eq, Octets.le_iff]
    · exact fun n hn => hgt n (hmet.gt n hn)
  · rw [hgap.positionOfId, hgap.items, countP_append_eq_length]
    · rfl
    · exact fun n hn => hlt n (hgap.lt n hn)
    · exact fun n hn => hgt n (hgap.gt n hn)

/-- From the index of a key to the upper bound of one that is not less are the nodes from the one to the other. -/
theorem upperBound_eq_index_add (h : Ascending l.items) {low high : Key} (hle : low ≤ high) :
    (l.positionOfId high).upperBound =
      (l.positionOfId low).index + l.items.countP fun n => low ≤ n.id && n.id ≤ high := by
  rw [upperBound_positionOfId h, index_positionOfId h, countP_le_eq_add (p := fun n => n.id < low)]
  · simp only [← decide_not, Octets.not_lt_iff_le]
  · intro n hn
    have := Octets.lt_iff.1 (of_decide_eq_true hn)
    rw [Octets.le_iff] at hle ⊢
    omega

/-- From the upper bound of a key to that of one that is not less are the nodes behind the one up to the other. -/
theorem upperBound_eq_upperBound_add (h : Ascending l.items) {low high : Key} (hle : low ≤ high) :
    (l.positionOfId high).upperBound =
      (l.positionOfId low).upperBound + l.items.countP fun n => low < n.id && n.id ≤ high := by
  rw [upperBound_positionOfId h, upperBound_positionOfId h, countP_le_eq_add (p := fun n => n.id ≤ low)]
  · simp only [← decide_not, ← Octets.not_lt_iff_le, not_not]
  · intro n hn
    have := Octets.le_iff.1 (of_decide_eq_true hn)
    rw [Octets.le_iff] at hle ⊢
    omega

/-! ## Adding a node -/

/-- A node with an id that is held is refused. -/
theorem add_of_holds (h : Ascending l.items) {node : Node} (hid : l.Holds node.id) : l.add node = (l, false) := by
  obtain ⟨before, known, behind, hmet⟩ := exists_met h hid
  exact SortedList.add_met hmet.items node hmet.lt hmet.compare_node hmet.gt

/-- A node with a new id goes into the gap of its id. -/
theorem Gap.add {node : Node} {before behind : List Node} (h : l.Gap node.id before behind) :
    l.add node = (⟨before ++ node :: behind⟩, true) :=
  SortedList.add_gap node h.items h.lt h.gt

/-- A node with a new id is added. -/
theorem add_of_not_holds (h : Ascending l.items) {node : Node} (hid : ¬l.Holds node.id) :
    l.add node = ((l.add node).1, true) := by
  obtain ⟨before, behind, hgap⟩ := exists_gap h hid
  rw [hgap.add]

/-- A new node is all that comes to the list. -/
theorem add_perm (h : Ascending l.items) {node : Node} (hid : ¬l.Holds node.id) :
    (l.add node).1.items.Perm (node :: l.items) := by
  obtain ⟨before, behind, hgap⟩ := exists_gap h hid
  rw [hgap.add, hgap.items]
  exact List.perm_middle

/-- The list stays in order when a node with a new id is added. -/
theorem add_ascending (h : Ascending l.items) {node : Node} (hid : ¬l.Holds node.id) :
    Ascending (l.add node).1.items := by
  obtain ⟨before, behind, hgap⟩ := exists_gap h hid
  rw [hgap.items] at h
  obtain ⟨hbefore, hbehind, hacross⟩ := List.pairwise_append.1 h
  rw [hgap.add]
  refine List.pairwise_append.2 ⟨hbefore, List.pairwise_cons.2 ⟨?_, hbehind⟩, ?_⟩
  · intro n hn
    exact Octets.lt_iff.2 (compare_eq_gt_iff.1 (hgap.gt n hn))
  · intro a ha b hb
    rcases List.mem_cons.1 hb with rfl | hb
    · exact hgap.lt a ha
    · exact hacross a ha b hb

/-! ## Changing a node -/

/-- A node with a known id is found and changed where it stands. -/
theorem Met.updateBy? {id : Key} {before behind : List Node} {node : Node} (h : l.Met id before node behind)
    (g : Node → Node) : l.updateBy? (fun n => compare n.id id) g = some (node, ⟨before ++ g node :: behind⟩) :=
  SortedList.updateBy?_met g h.items h.lt h.compare_node h.gt

theorem Gap.updateBy? {id : Key} {before behind : List Node} (h : l.Gap id before behind) (g : Node → Node) :
    l.updateBy? (fun n => compare n.id id) g = none :=
  SortedList.updateBy?_gap g h.items h.lt h.gt

/-- A change that goes to the one node with an id is a change of every node with this id. -/
theorem Met.map_eq {id : Key} {before behind : List Node} {node : Node} (h : l.Met id before node behind)
    (g : Node → Node) : l.items.map (fun n => if n.id = id then g n else n) = before ++ g node :: behind := by
  have hkeep : ∀ xs : List Node, (∀ n ∈ xs, compare n.id id ≠ .eq) →
      xs.map (fun n => if n.id = id then g n else n) = xs := by
    intro xs hxs
    refine (List.map_congr_left fun n hn => ?_).trans (List.map_id xs)
    exact if_neg fun he => hxs n hn (compare_eq_eq_iff.2 he)
  rw [h.items, List.map_append, List.map_cons, if_pos h.eq, hkeep before fun n hn => by simp [h.lt n hn],
    hkeep behind fun n hn => by simp [h.gt n hn]]

/-- A change for an id that is held is made to the node that has it, and to no other. -/
theorem updateBy?_of_holds (h : Ascending l.items) {id : Key} (hid : l.Holds id) (g : Node → Node) :
    ∃ node, l.updateBy? (fun n => compare n.id id) g =
      some (node, ⟨l.items.map fun n => if n.id = id then g n else n⟩) := by
  obtain ⟨before, node, behind, hmet⟩ := exists_met h hid
  exact ⟨node, by rw [hmet.updateBy?, hmet.map_eq]⟩

/-- Nothing is changed for an id that is not held. -/
theorem updateBy?_of_not_holds (h : Ascending l.items) {id : Key} (hid : ¬l.Holds id) (g : Node → Node) :
    l.updateBy? (fun n => compare n.id id) g = none := by
  obtain ⟨before, behind, hgap⟩ := exists_gap h hid
  exact hgap.updateBy? g

end NodeList

end Kademlia
