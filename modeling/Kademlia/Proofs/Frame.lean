import Kademlia.Proofs.Offers

/-!
# What an offer leaves as it was

An offer works its way down from the bucket of its id, and every search for a bucket on the way meets that bucket or one of its
halves. So whatever buckets the offer leaves of this one, they hold its keys and stand in its place (`Subdivides`), and the buckets
before and behind it are not touched, nor is the other family. Of the nodes none is changed, and at most the one that is offered
joins them, between the smaller and the greater ids (`Joins`).
-/

namespace Kademlia

/-- The bucket of an id gives way, in its place, to one or more buckets of exactly its keys; the buckets before and behind it do not
have the id and stay as they are. -/
def Subdivides (id : Key) (buckets after : List Bucket) : Prop :=
  ∃ before b behind bs, buckets = before ++ b :: behind ∧ after = before ++ bs ++ behind ∧ b.contains id = true ∧
    (∀ c, c ∈ before ∨ c ∈ behind → c.contains id = false) ∧ bs ≠ [] ∧ Tiles b.min.toNat (b.max.toNat + 1) bs

/-- The nodes stay as they are, or a node joins them between the smaller and the greater ids. -/
def Joins (node : Node) (nodes joined : List Node) : Prop :=
  joined = nodes ∨ ∃ before behind, nodes = before ++ behind ∧ joined = before ++ node :: behind ∧
    (∀ n ∈ before, n.id < node.id) ∧ ∀ n ∈ behind, node.id < n.id

/-- A node with a new id joins the list. -/
theorem NodeList.joins_add {l : NodeList} {node : Node} (h : Ascending l.items) (hnew : ¬l.Holds node.id) :
    Joins node l.items (l.add node).1.items := by
  obtain ⟨before, behind, hgap⟩ := exists_gap h hnew
  rw [hgap.add]
  refine Or.inr ⟨before, behind, hgap.items, rfl, hgap.lt, ?_⟩
  intro n hn
  exact Octets.lt_iff.2 (compare_eq_gt_iff.1 (hgap.gt n hn))

namespace Directory

variable {family : Family} {d : Directory family}

/-! ## Directories -/

theorem Sound.subdivides_self (hd : d.Sound) (id : Key) : Subdivides id d.buckets.items d.buckets.items := by
  obtain ⟨before, b, behind, hb, hkey⟩ := exists_bucket hd.tiles id
  have hle := (hd.tiles.bounds (hb ▸ List.mem_append_right before List.mem_cons_self)).2.1
  exact ⟨before, b, behind, [b], hb, by simp [hb], hkey, fun c => not_contains_of_mem_other hd.tiles hb hkey,
    List.cons_ne_nil b [], .singleton hle⟩

/-- An offer touches the bucket of its id only. -/
theorem Sound.subdivides_insert (hd : d.Sound) (now : Int) (rule : SplitRule) (node : Node) :
    Subdivides node.id d.buckets.items (d.insert now rule node).state.buckets.items := by
  by_cases hid : d.nodes.Holds node.id
  · rw [insert_of_holds hd.ascending hd.tiles hid]
    exact hd.subdivides_self node.id
  · obtain ⟨before, b, behind, height, outcome, bs, events, hb, hkey, hfits, hdescent, hresult⟩ :=
      hd.exists_descent hid now rule
    have htiles := hdescent.tiles hfits.block
    rw [hresult]
    exact ⟨before, b, behind, bs, hb, rfl, hkey, fun c => not_contains_of_mem_other hd.tiles hb hkey,
      htiles.ne_nil (Nat.lt_succ_of_le hfits.block.min_le_max), htiles⟩

/-- An offer leaves every node as it is. -/
theorem Sound.joins_insert (hd : d.Sound) (now : Int) (rule : SplitRule) (node : Node) :
    Joins node d.nodes.items (d.insert now rule node).state.nodes.items := by
  by_cases hid : d.nodes.Holds node.id
  · rw [insert_of_holds hd.ascending hd.tiles hid]
    exact Or.inl rfl
  · rw [hd.nodes_insert]
    cases (d.insert now rule node).outcome
    case added => exact NodeList.joins_add hd.ascending hid
    all_goals exact Or.inl rfl

end Directory

/-! ## Sessions -/

/-- The offer of a contact reaches the directory of its family, or the limit on the nodes of both families stops it. -/
theorem Session.directory_step_insert_cases (s : Session) (contact : Contact) (status : Status) (age : Int) :
    let d := s.table.directory contact.family
    let after := (s.step (.insert contact status age)).session.table.directory contact.family
    after = d ∨ after = (d.insert s.now s.table.config.toSplitRule ⟨contact, status, s.now - age⟩).state := by
  intro d after
  rcases Nat.lt_or_ge s.table.size s.table.config.maxNodes with hroom | hfull
  · refine Or.inr ?_
    simp only [after, step_insert_of_room hroom, Table.directory_setDirectory_self, d]
  · refine Or.inl ?_
    simp only [after, step_insert_of_full hfull, d]

/-- Whatever a session asked before, the offer of a contact leaves all buckets of its family that do not have its id as they are and
where they are; the one bucket that has it gives way in its place to buckets of exactly its keys. Every node is left as it is, and only
the node offered may join them. Of the other family neither buckets nor nodes change. -/
theorem run_insert_frame (config : Config) (ops : List Operation) (contact : Contact) (status : Status) (age : Int) :
    let s := (Session.start config).run ops
    let after := (s.step (.insert contact status age)).session
    Subdivides contact.id (s.table.buckets contact.family) (after.table.buckets contact.family) ∧
    Joins ⟨contact, status, s.now - age⟩ (s.table.nodes contact.family) (after.table.nodes contact.family) ∧
    ∀ family ≠ contact.family, after.table.buckets family = s.table.buckets family ∧
      after.table.nodes family = s.table.nodes family := by
  intro s after
  have hd : (s.table.directory contact.family).Sound := Session.run_sound config ops contact.family
  have hown : Subdivides contact.id (s.table.buckets contact.family) (after.table.buckets contact.family) ∧
      Joins ⟨contact, status, s.now - age⟩ (s.table.nodes contact.family) (after.table.nodes contact.family) := by
    unfold Table.buckets Table.nodes
    rcases s.directory_step_insert_cases contact status age with hafter | hafter
    · rw [hafter]
      exact ⟨hd.subdivides_self contact.id, Or.inl rfl⟩
    · rw [hafter]
      exact ⟨hd.subdivides_insert _ _ _, hd.joins_insert _ _ _⟩
  refine ⟨hown.1, hown.2, ?_⟩
  intro family hfamily
  have hother := s.directory_step_insert_of_ne contact status age hfamily
  simp only [after, Table.buckets, Table.nodes, hother, and_self]

/-- Eight ids that agree with our own in the first nine bits fill the bucket of all keys. It takes ten splits until an id that agrees in
more bits has a bucket with room, and the bucket of all keys of the other family stays whole. -/
theorem run_insert_frame_of_ten_splits :
    let config : Config := { ownId := Key.lowest, acceptAll := false, maxNodes := 20, closestCount := 16 }
    let offer (k : Nat) := Operation.insert ⟨Key.ofNat k, .v4 (Octets.lowest 4) 0⟩ .good 0
    let s := (Session.start config).run ((List.range 8).map fun k => offer (2 ^ 150 + k))
    let after := (s.step (offer 1)).session
    (s.table.buckets .v4).length = 1 ∧ (after.table.buckets .v4).length = 11 ∧
      Subdivides (Key.ofNat 1) (s.table.buckets .v4) (after.table.buckets .v4) ∧
      Joins ⟨⟨Key.ofNat 1, .v4 (Octets.lowest 4) 0⟩, .good, 0⟩ (s.table.nodes .v4) (after.table.nodes .v4) ∧
      after.table.buckets .v6 = s.table.buckets .v6 := by
  intro config offer s after
  have hbefore : (s.table.buckets .v4).length = 1 := by decide +kernel
  have hafter : (after.table.buckets .v4).length = 11 := by decide +kernel
  obtain ⟨hsubdivides, hjoins, hother⟩ := run_insert_frame config ((List.range 8).map fun k => offer (2 ^ 150 + k))
    ⟨Key.ofNat 1, .v4 (Octets.lowest 4) 0⟩ .good 0
  exact ⟨hbefore, hafter, hsubdivides, hjoins, (hother .v6 nofun).1⟩

end Kademlia
