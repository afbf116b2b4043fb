import Kademlia.Proofs.Refusal

/-!
# What an offer changes

The limit on the nodes of both families is looked at before anything else, and a known id is found out at the first look at its bucket:
a bucket is split only for an id that is new, so an offer that splits ends with the node added or turned away. Therefore each answer says
what became of the session. An added node is all that comes to the nodes, and a node that is turned away leaves them as they were; only an
offer that is turned away by a full bucket may change buckets and no node. As nothing else adds a node, the limit is never passed.
-/

namespace Kademlia

namespace Table

/-- A directory that takes the place of another brings its nodes. -/
theorem size_setDirectory (t : Table) (family : Family) (d : Directory family) :
    (t.setDirectory family d).size + (t.directory family).size = t.size + d.size := by
  cases family <;> simp only [size, setDirectory, directory] <;> omega

end Table

/-! ## Directories -/

namespace Directory

variable {family : Family} {d : Directory family} {now : Int} {rule : SplitRule} {node : Node}

/-- The nodes of a directory after an offer, in any order. -/
theorem Sound.nodes_insert_perm (hd : d.Sound) (now : Int) (rule : SplitRule) (node : Node) :
    (d.insert now rule node).state.nodes.items.Perm (offered d.nodes.items node (d.insert now rule node).outcome) := by
  by_cases hid : d.nodes.Holds node.id
  · rw [insert_of_holds hd.ascending hd.tiles hid]
    exact List.Perm.refl _
  · rw [hd.nodes_insert]
    exact nodesAfter_perm hd.ascending hid _

/-- An offer makes a directory larger by the node that it adds. -/
theorem Sound.size_insert (hd : d.Sound) (now : Int) (rule : SplitRule) (node : Node) :
    (d.insert now rule node).state.size = d.size + if (d.insert now rule node).outcome = .added then 1 else 0 := by
  have hlength := (hd.nodes_insert_perm now rule node).length_eq
  show (d.insert now rule node).state.nodes.items.length = d.nodes.items.length + _
  rw [hlength]
  cases (d.insert now rule node).outcome <;> rfl

/-- An offer that adds no node leaves the nodes as they are, and in their order. -/
theorem Sound.nodes_insert_of_ne_added (hd : d.Sound) (h : (d.insert now rule node).outcome ≠ .added) :
    (d.insert now rule node).state.nodes = d.nodes := by
  rw [hd.nodes_insert]
  cases houtcome : (d.insert now rule node).outcome
  case added => exact absurd houtcome h
  all_goals rfl

/-- No bucket was split for an id that turns out to be known. -/
theorem Sound.insert_of_alreadyPresent (hd : d.Sound) (h : (d.insert now rule node).outcome = .alreadyPresent) :
    (d.insert now rule node).state = d := by
  by_cases hid : d.nodes.Holds node.id
  · rw [insert_of_holds hd.ascending hd.tiles hid]
  · obtain ⟨before, b, behind, height, outcome, bs, events, -, hkey, -, hdescent, hresult⟩ := hd.exists_descent hid now rule
    rw [hresult] at h
    rcases hdescent.exists_refusing hkey with rfl | ⟨rfl, -⟩ <;> cases h

end Directory

/-! ## Sessions -/

namespace Session

variable {s : Session} {config : Config}

section Insert

variable (hs : s.Proper config) (contact : Contact) (status : Status) (age : Int)
include hs

/-- A table grows by the node that is added to it. -/
theorem Proper.size_step_insert :
    (s.step (.insert contact status age)).session.table.size =
      s.table.size + if (s.step (.insert contact status age)).answer = .outcome .added then 1 else 0 := by
  rcases Nat.lt_or_ge s.table.size s.table.config.maxNodes with hroom | hfull
  · have hinsert := (hs.sound contact.family).size_insert s.now s.table.config.toSplitRule ⟨contact, status, s.now - age⟩
    have hset := s.table.size_setDirectory contact.family
      ((s.table.directory contact.family).insert s.now s.table.config.toSplitRule ⟨contact, status, s.now - age⟩).state
    rw [step_insert_of_room hroom]
    simp only [Answer.outcome.injEq]
    omega
  · simp [step_insert_of_full hfull]

/-- The nodes that an added node joins are those that there were. -/
theorem Proper.nodes_step_added (h : (s.step (.insert contact status age)).answer = .outcome .added) :
    ((s.step (.insert contact status age)).session.table.nodes contact.family).Perm
      (⟨contact, status, s.now - age⟩ :: s.table.nodes contact.family) := by
  rcases Nat.lt_or_ge s.table.size s.table.config.maxNodes with hroom | hfull
  · have hperm := (hs.sound contact.family).nodes_insert_perm s.now s.table.config.toSplitRule ⟨contact, status, s.now - age⟩
    rw [step_insert_of_room hroom] at h ⊢
    rw [Answer.outcome.inj h] at hperm
    unfold Table.nodes
    rwa [Table.directory_setDirectory_self]
  · rw [step_insert_of_full hfull] at h
    cases h

/-- An offer that meets the limit or a known id changes nothing. -/
theorem Proper.step_insert_of_refused (h : (s.step (.insert contact status age)).answer = .outcome .tableFull ∨
      (s.step (.insert contact status age)).answer = .outcome .alreadyPresent) :
    (s.step (.insert contact status age)).session = s := by
  rcases Nat.lt_or_ge s.table.size s.table.config.maxNodes with hroom | hfull
  · have hanswer := h.resolve_left (hs.answer_insert_of_room hroom contact status age)
    rw [step_insert_of_room hroom] at hanswer ⊢
    have hstate := (hs.sound contact.family).insert_of_alreadyPresent (Answer.outcome.inj hanswer)
    simp only [hstate, Table.setDirectory_directory]
  · rw [step_insert_of_full hfull]

/-- An offer that adds no node leaves the nodes of both families as they are. -/
theorem Proper.nodes_step_insert_of_ne_added (h : (s.step (.insert contact status age)).answer ≠ .outcome .added)
    (family : Family) : (s.step (.insert contact status age)).session.table.nodes family = s.table.nodes family := by
  rcases Nat.lt_or_ge s.table.size s.table.config.maxNodes with hroom | hfull
  · rw [step_insert_of_room hroom] at h ⊢
    unfold Table.nodes
    by_cases hfamily : family = contact.family
    · subst hfamily
      rw [Table.directory_setDirectory_self,
        (hs.sound contact.family).nodes_insert_of_ne_added fun houtcome => h (congrArg Answer.outcome houtcome)]
    · rw [Table.directory_setDirectory_of_ne _ _ hfamily]
  · rw [step_insert_of_full hfull]

end Insert

/-- An offer is about one family. -/
theorem directory_step_insert_of_ne (s : Session) (contact : Contact) (status : Status) (age : Int) {family : Family}
    (h : family ≠ contact.family) :
    (s.step (.insert contact status age)).session.table.directory family = s.table.directory family := by
  rcases Nat.lt_or_ge s.table.size s.table.config.maxNodes with hroom | hfull
  · rw [step_insert_of_room hroom]
    exact Table.directory_setDirectory_of_ne _ _ h
  · rw [step_insert_of_full hfull]

/-! ## Runs -/

/-- No operation takes a table past its limit. -/
theorem Proper.size_step_le (hs : s.Proper config) (h : s.table.size ≤ config.maxNodes) (op : Operation) :
    (s.step op).session.table.size ≤ config.maxNodes := by
  cases op with
  | insert contact status age =>
    have hfull := hs.answer_eq_tableFull_iff (.insert contact status age)
    rw [hs.size_step_insert contact status age]
    split
    · rename_i hadded
      -- a node that was added was not stopped by the limit
      rw [hadded] at hfull
      have hroom : ¬config.maxNodes ≤ s.table.size := fun hge => nomatch hfull.2 ⟨hge, contact, status, age, rfl⟩
      omega
    · exact h
  | update id status family =>
    simp only [step, Table.update?]
    cases hd : (s.table.directory family).update? id status s.now with
    | none => exact h
    | some d =>
      have hsize := (hs.sound family).size_update hd
      have hset := s.table.size_setDirectory family d
      simp only [Option.map_some]
      omega
  | clear => exact Nat.zero_le _
  | advance | find | closest | tally | nodes | buckets => exact h

/-- A table never has more nodes than its limit allows. -/
theorem run_size_le (config : Config) (ops : List Operation) : ((start config).run ops).table.size ≤ config.maxNodes :=
  (run_induction (P := fun s => s.Proper config ∧ s.table.size ≤ config.maxNodes)
    ⟨proper_run config [], Nat.zero_le _⟩
    (fun _ op h => ⟨proper_step h.1 op, h.1.size_step_le h.2 op⟩) ops).2

end Session

/-- After every run a table has at most as many nodes as its limit allows, and what the offer of a contact does then shows in the answer.
The limit stops it exactly if it was reached, whether or not the id is known. If it adds the node, this node is all that comes to its
family, and the table has one node more. If the limit or a known id stops it, the session is as it was. If a full bucket turns it away, the
nodes of both families are as they were. The directory of the other family is as it was in any case. -/
theorem run_answer_insert (config : Config) (ops : List Operation) (contact : Contact) (status : Status) (age : Int) :
    let s := (Session.start config).run ops
    let reply := s.step (.insert contact status age)
    s.table.size ≤ config.maxNodes ∧
    (reply.answer = .outcome .tableFull ↔ config.maxNodes ≤ s.table.size) ∧
    (reply.answer = .outcome .added →
      (reply.session.table.nodes contact.family).Perm (⟨contact, status, s.now - age⟩ :: s.table.nodes contact.family) ∧
      reply.session.table.size = s.table.size + 1) ∧
    (reply.answer = .outcome .tableFull ∨ reply.answer = .outcome .alreadyPresent → reply.session = s) ∧
    (reply.answer = .outcome .bucketFull → ∀ family, reply.session.table.nodes family = s.table.nodes family) ∧
    ∀ family ≠ contact.family, reply.session.table.directory family = s.table.directory family := by
  intro s reply
  have hs : s.Proper config := Session.proper_run config ops
  refine ⟨Session.run_size_le config ops, ?_, ?_, ?_, ?_, ?_⟩
  · have hfull := hs.answer_eq_tableFull_iff (.insert contact status age)
    simpa using hfull
  · intro hadded
    have hsize := hs.size_step_insert contact status age
    rw [if_pos hadded] at hsize
    exact ⟨hs.nodes_step_added contact status age hadded, hsize⟩
  · exact hs.step_insert_of_refused contact status age
  · intro hrefused
    refine hs.nodes_step_insert_of_ne_added contact status age fun hadded => ?_
    rw [hrefused] at hadded
    cases hadded
  · intro family hfamily
    exact s.directory_step_insert_of_ne contact status age hfamily

/-- A table for nine nodes that has eight of which none shares a bit with our own id: a further such id is turned away, although the
bucket of all keys is split for it, a known one changes nothing, an id close to our own is added, and then the limit stops a known id too. -/
theorem run_answer_insert_of_limit :
    let config : Config := { ownId := Key.lowest, acceptAll := false, maxNodes := 9, closestCount := 16 }
    let offer (k : Nat) := Operation.insert ⟨Key.ofNat k, .v4 (Octets.lowest 4) 0⟩ .good 0
    let far := (List.range 8).map fun k => offer (2 ^ 159 + k)
    let s := (Session.start config).run far
    let turnedAway := s.step (offer (2 ^ 159 + 8))
    let known := s.step (offer (2 ^ 159 + 3))
    let added := s.step (offer 1)
    let stopped := added.session.step (offer (2 ^ 159 + 3))
    (turnedAway.answer = .outcome .bucketFull ∧ turnedAway.session.table.buckets .v4 ≠ s.table.buckets .v4 ∧
      ∀ family, turnedAway.session.table.nodes family = s.table.nodes family) ∧
    (known.answer = .outcome .alreadyPresent ∧ known.session = s) ∧
    (added.answer = .outcome .added ∧ added.session.table.size = s.table.size + 1) ∧
    stopped.answer = .outcome .tableFull ∧ stopped.session = added.session := by
  intro config offer far s turnedAway known added stopped
  have hturnedAway : turnedAway.answer = .outcome .bucketFull := by decide +kernel
  have hbuckets : turnedAway.session.table.buckets .v4 ≠ s.table.buckets .v4 := by decide +kernel
  have hknown : known.answer = .outcome .alreadyPresent := by decide +kernel
  have hadded : added.answer = .outcome .added := by decide +kernel
  have hsize : config.maxNodes ≤ added.session.table.size := by decide +kernel
  have hs (k : Nat) := run_answer_insert config far ⟨Key.ofNat k, .v4 (Octets.lowest 4) 0⟩ .good 0
  have hrun : (Session.start config).run (far ++ [offer 1]) = added.session := Session.run_append _ _ _
  obtain ⟨-, hfull, -, hunchanged, -⟩ :=
    run_answer_insert config (far ++ [offer 1]) ⟨Key.ofNat (2 ^ 159 + 3), .v4 (Octets.lowest 4) 0⟩ .good 0
  rw [hrun] at hfull hunchanged
  have hstopped : stopped.answer = .outcome .tableFull := hfull.2 hsize
  refine ⟨⟨hturnedAway, hbuckets, (hs (2 ^ 159 + 8)).2.2.2.2.1 hturnedAway⟩, ⟨hknown, ?_⟩, ⟨hadded, ?_⟩, hstopped, ?_⟩
  · exact (hs (2 ^ 159 + 3)).2.2.2.1 (Or.inr hknown)
  · exact ((hs 1).2.2.1 hadded).2
  · exact hunchanged (Or.inl hstopped)

end Kademlia
