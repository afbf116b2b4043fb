import Kademlia.Proofs.History

/-!
# What a table recalls

The nodes of a family can be told from its history alone (`Recalls`): a node is there if it was added since the last clearing, with
the contact that it was added with, whatever was offered for its id later, and with the status and the time of the latest report about
it, or those that it came with. Splits and refused offers do not show. `run_recalls` says this of every run, and that a report changes
the one node it is about and nothing else.
-/

namespace Kademlia

namespace Entry

/-- The node that an entry adds to a family under an id, if it adds one. -/
def adds? (family : Family) (id : Key) (e : Entry) : Option Node :=
  match e.operation with
  | .insert contact status age =>
    if contact.family = family ∧ contact.id = id ∧ e.answer = .outcome .added then some ⟨contact, status, e.now - age⟩ else none
  | _ => none

/-- The status that an entry reports about an id of a family, and the time of the report. -/
def reports? (family : Family) (id : Key) (e : Entry) : Option (Status × Int) :=
  match e.operation with
  | .update reported status other => if other = family ∧ reported = id then some (status, e.now) else none
  | _ => none

end Entry

/-- The latest report about an id of a family. -/
def latestReport? (family : Family) (id : Key) (entries : List Entry) : Option (Status × Int) :=
  (entries.filterMap (Entry.reports? family id)).getLast?

/-- The latest report is that of the last entry, if it reports about the id, or else the one before. -/
theorem latestReport?_concat (family : Family) (id : Key) (entries : List Entry) (e : Entry) :
    latestReport? family id (entries ++ [e]) = (e.reports? family id).or (latestReport? family id entries) := by
  unfold latestReport?
  rw [List.filterMap_append, List.getLast?_append]
  cases he : e.reports? family id <;> simp [he]

/-- The node after a report, if there is one. -/
def Node.updatedBy (n : Node) : Option (Status × Int) → Node
  | some (status, now) => n.report status now
  | none => n

/-- Of two reports the second is the one that counts. -/
theorem Node.updatedBy_updatedBy (n : Node) (first second : Option (Status × Int)) :
    (n.updatedBy first).updatedBy second = n.updatedBy (second.or first) := by
  cases first <;> cases second <;> rfl

/-- The node that entries tell of under an id of a family: it was added with its contact, and its status and the time of its last
report are those of the latest report since, or else those it was added with. -/
def Recalls (family : Family) (id : Key) (entries : List Entry) (n : Node) : Prop :=
  ∃ before e after added, entries = before ++ e :: after ∧ e.adds? family id = some added ∧ n.contact = added.contact ∧
    (n.status, n.updated) = (latestReport? family id after).getD (added.status, added.updated)

/-- What entries tell of a node is the node as it was added, after the latest report since. -/
theorem recalls_iff {family : Family} {id : Key} {entries : List Entry} {n : Node} :
    Recalls family id entries n ↔ ∃ before e after added, entries = before ++ e :: after ∧ e.adds? family id = some added ∧
      n = added.updatedBy (latestReport? family id after) := by
  refine exists_congr fun before => exists_congr fun e => exists_congr fun after => exists_congr fun added => ?_
  refine and_congr_right fun _ => and_congr_right fun _ => ?_
  obtain ⟨contact, status, updated⟩ := n
  obtain ⟨contact', status', updated'⟩ := added
  cases latestReport? family id after with
  | none => simp [Node.updatedBy]
  | some report => simp [Node.updatedBy, Node.report, Prod.ext_iff]

/-- An entry more tells of the node that it adds, and of the nodes that the others tell of after its report. -/
theorem recalls_concat {family : Family} {id : Key} {entries : List Entry} {e : Entry} {n : Node} :
    Recalls family id (entries ++ [e]) n ↔
      e.adds? family id = some n ∨ ∃ m, Recalls family id entries m ∧ n = m.updatedBy (e.reports? family id) := by
  simp only [recalls_iff]
  constructor
  · rintro ⟨before, last, after, added, hentries, hadds, rfl⟩
    rcases List.eq_nil_or_concat after with rfl | ⟨after, last', rfl⟩
    · obtain ⟨rfl, hlast⟩ := List.append_inj' hentries rfl
      obtain rfl := (List.cons.inj hlast).1
      exact Or.inl hadds
    · rw [List.concat_eq_append, ← List.cons_append, ← List.append_assoc] at hentries
      obtain ⟨rfl, hlast⟩ := List.append_inj' hentries rfl
      obtain rfl := (List.cons.inj hlast).1
      refine Or.inr ⟨_, ⟨before, last, after, added, rfl, hadds, rfl⟩, ?_⟩
      rw [List.concat_eq_append, latestReport?_concat, Node.updatedBy_updatedBy]
  · rintro (hadds | ⟨m, ⟨before, first, after, added, rfl, hadds, rfl⟩, rfl⟩)
    · exact ⟨entries, e, [], n, rfl, hadds, rfl⟩
    · refine ⟨before, first, after ++ [e], added, by simp, hadds, ?_⟩
      rw [latestReport?_concat, Node.updatedBy_updatedBy]

namespace Directory

variable {family : Family} {d : Directory family} {id : Key}

/-! ## Directories -/

/-- The node found under an id is the one with this id. -/
theorem Sound.find?_eq_some_iff (hd : d.Sound) {n : Node} : d.find? id = some n ↔ n ∈ d.nodes.items ∧ n.id = id := by
  unfold find?
  constructor
  · intro h
    obtain ⟨hget, hid⟩ := Option.filter_eq_some_iff.1 h
    exact ⟨(SortedList.getBy?_eq_some hget).1, of_decide_eq_true hid⟩
  · rintro ⟨hn, rfl⟩
    obtain ⟨before, node, behind, hmet⟩ := NodeList.exists_met hd.ascending ⟨n, hn, rfl⟩
    have hnode : node ∈ d.nodes.items := by simp [hmet.items]
    obtain rfl := hd.ascending.eq_of_id_eq hnode hn hmet.eq
    have hget : d.nodes.getBy? (fun m => compare m.id node.id) = some node :=
      SortedList.getBy?_met hmet.items hmet.lt hmet.compare_node hmet.gt
    rw [hget]
    simp

/-- A node is found by its id if the directory holds it. -/
theorem Sound.find?_isSome (hd : d.Sound) : (d.find? id).isSome = true ↔ d.nodes.Holds id := by
  simp only [Option.isSome_iff_exists, hd.find?_eq_some_iff]
  rfl

end Directory

/-! ## Sessions -/

namespace Session

variable {s : Session} {config : Config} {family : Family} {id : Key} {n : Node}

/-- The offer of a contact adds its node, or nothing. -/
theorem Proper.find?_step_insert (hs : s.Proper config) (contact : Contact) (status : Status) (age : Int) :
    ((s.step (.insert contact status age)).session.table.directory family).find? id = some n ↔
      (s.entry (.insert contact status age)).adds? family id = some n ∨
        (s.table.directory family).find? id = some n := by
  rcases Nat.lt_or_ge s.table.size s.table.config.maxNodes with hroom | hfull
  · have hd := hs.sound contact.family
    generalize hnode : (⟨contact, status, s.now - age⟩ : Node) = node
    have hentry : s.entry (.insert contact status age) = ⟨s.now, .insert contact status age,
        .outcome ((s.table.directory contact.family).insert s.now s.table.config.toSplitRule node).outcome⟩ := by
      rw [entry, step_insert_of_room hroom, hnode]
    rw [hentry, step_insert_of_room hroom, hnode]
    by_cases hfamily : contact.family = family
    · subst hfamily
      have hd' : ((s.table.directory contact.family).insert s.now s.table.config.toSplitRule node).state.Sound :=
        hd.insert (by rw [← hnode]; rfl)
      rw [Table.directory_setDirectory_self, hd'.find?_eq_some_iff, hd.find?_eq_some_iff, hd.mem_nodes_insert]
      subst hnode
      simp only [Entry.adds?, true_and, Answer.outcome.injEq, Option.ite_none_right_eq_some, Option.some.injEq]
      constructor
      · rintro ⟨hn | ⟨houtcome, rfl⟩, rfl⟩
        · exact Or.inr ⟨hn, rfl⟩
        · exact Or.inl ⟨⟨rfl, houtcome⟩, rfl⟩
      · rintro (⟨⟨rfl, houtcome⟩, rfl⟩ | ⟨hn, rfl⟩)
        · exact ⟨Or.inr ⟨houtcome, rfl⟩, rfl⟩
        · exact ⟨Or.inl hn, rfl⟩
    · rw [Table.directory_setDirectory_of_ne _ _ (Ne.symm hfamily)]
      simp [Entry.adds?, hfamily]
  · simp [entry, Entry.adds?, step_insert_of_full hfull]

/-- A report about a known id changes its node. -/
theorem Proper.step_update_of_holds (hs : s.Proper config) (h : (s.table.directory family).nodes.Holds id) (status : Status) :
    s.step (.update id status family) =
      ⟨{ s with table := s.table.setDirectory family { s.table.directory family with
          nodes := ⟨(s.table.nodes family).map fun n => if n.id = id then n.report status s.now else n⟩ } }, .known true, []⟩ := by
  simp only [step, Table.update?, Directory.update?_eq (hs.sound family), if_pos h, Option.map_some]
  rfl

/-- A report about an id that is not known changes nothing. -/
theorem Proper.step_update_of_not_holds (hs : s.Proper config) (h : ¬(s.table.directory family).nodes.Holds id)
    (status : Status) : s.step (.update id status family) = ⟨s, .known false, []⟩ := by
  simp only [step, Table.update?, Directory.update?_eq (hs.sound family), if_neg h, Option.map_none]

/-- What a report answers, and what becomes of the table: of the nodes of its family the one with its id, if there is one, gets its
status and time, and all else stays. -/
theorem Proper.step_update (hs : s.Proper config) (reported : Key) (status : Status) (other : Family) :
    let reply := s.step (.update reported status other)
    reply.answer = .known (s.table.find? reported other).isSome ∧ reply.session.now = s.now ∧
      reply.session.table.config = s.table.config ∧ ∀ family,
      reply.session.table.buckets family = s.table.buckets family ∧
      reply.session.table.nodes family =
        (s.table.nodes family).map fun n => if family = other ∧ n.id = reported then n.report status s.now else n := by
  intro reply
  have hfound : (s.table.find? reported other).isSome = true ↔ _ := (hs.sound other).find?_isSome
  by_cases hid : (s.table.directory other).nodes.Holds reported
  · have hreply : reply = _ := hs.step_update_of_holds hid status
    rw [hreply]
    refine ⟨congrArg Answer.known (hfound.2 hid).symm, rfl, Table.config_setDirectory _ _ _, fun family => ?_⟩
    unfold Table.buckets Table.nodes
    by_cases hfamily : family = other
    · subst hfamily
      simp
    · rw [Table.directory_setDirectory_of_ne _ _ hfamily]
      simp [hfamily]
  · have hreply : reply = _ := hs.step_update_of_not_holds hid status
    rw [hreply]
    refine ⟨congrArg Answer.known (Bool.eq_false_iff.2 (mt hfound.1 hid)).symm, rfl, rfl, fun family => ⟨rfl, ?_⟩⟩
    refine ((List.map_congr_left fun n hn => if_neg ?_).trans (List.map_id _)).symm
    rintro ⟨rfl, hn'⟩
    exact hid ⟨n, hn, hn'⟩

/-- What a node is found to be after an operation other than a clearing: what the entry adds, or what was found before, after the
report of the entry. -/
theorem Proper.find?_step (hs : s.Proper config) {op : Operation} (hop : op ≠ .clear) :
    (s.step op).session.table.find? id family = some n ↔
      (s.entry op).adds? family id = some n ∨
        ∃ m, s.table.find? id family = some m ∧ n = m.updatedBy ((s.entry op).reports? family id) := by
  cases op with
  | insert contact status age =>
    have hreports : (s.entry (.insert contact status age)).reports? family id = none := rfl
    simp only [hreports, Node.updatedBy, exists_eq_right']
    exact hs.find?_step_insert contact status age
  | update reported status other =>
    have hs' := proper_step hs (.update reported status other)
    have hnodes := ((hs.step_update reported status other).2.2.2 family).2
    have hadds : (s.entry (.update reported status other)).adds? family id = none := rfl
    have hreports : (s.entry (.update reported status other)).reports? family id =
        if other = family ∧ reported = id then some (status, s.now) else none := rfl
    have hchange : ∀ m : Node, m.id = id → (if family = other ∧ m.id = reported then m.report status s.now else m) =
        m.updatedBy (if other = family ∧ reported = id then some (status, s.now) else none) := by
      rintro m rfl
      simp only [eq_comm (a := family), eq_comm (a := m.id)]
      split <;> rfl
    simp only [Table.find?, (hs'.sound family).find?_eq_some_iff, (hs.sound family).find?_eq_some_iff, hadds, hreports,
      reduceCtorEq, false_or]
    rw [show ((s.step (.update reported status other)).session.table.directory family).nodes.items = _ from hnodes]
    constructor
    · rintro ⟨hn, hid⟩
      obtain ⟨m, hm, rfl⟩ := List.mem_map.1 hn
      have hmid : m.id = id := by
        rw [← hid]
        split <;> rfl
      exact ⟨m, ⟨hm, hmid⟩, hchange m hmid⟩
    · rintro ⟨m, ⟨hm, hmid⟩, rfl⟩
      rw [← hchange m hmid]
      refine ⟨List.mem_map_of_mem hm, ?_⟩
      rw [← hmid]
      split <;> rfl
  | clear => exact absurd rfl hop
  | advance | find | closest | tally | nodes | buckets =>
    simp [step, entry, Entry.adds?, Entry.reports?, Node.updatedBy]

/-- The nodes that are found after a run are those that its history tells of. -/
theorem find?_run_eq_some_iff (config : Config) (ops : List Operation) (id : Key) (family : Family) :
    ∀ n, ((start config).run ops).table.find? id family = some n ↔ Recalls family id ((start config).history ops) n := by
  have hnone : ∀ n, ¬Recalls family id [] n := by
    rintro n ⟨before, e, after, added, hentries, -⟩
    simp at hentries
  have hempty : ∀ now, (Directory.empty now : Directory family).find? id = none := fun _ => rfl
  refine run_history (P := fun s history => ∀ n, s.table.find? id family = some n ↔ Recalls family id history n)
    config ?_ ?_ ?_ ops
  · intro n
    simp [Table.find?, start, Table.directory_empty, hempty, hnone]
  · intro s hs n
    simp [Table.find?, directory_step_clear, hempty, hnone]
  · intro s history op hs hop ih n
    simp only [hs.find?_step hop, recalls_concat, ih]

end Session

/-- A node is found under an id of a family exactly if an offer of the id to the family was answered with `added` since the last
clearing. It is the node that the history tells of. The nodes of a family are those that are found, in the order of their ids. A report
says whether there is such a node; it sets its status and time, and leaves all else as it was. -/
theorem run_recalls (config : Config) (ops : List Operation) :
    let s := (Session.start config).run ops
    let history := (Session.start config).history ops
    (∀ id family, (s.table.find? id family).isSome = true ↔ ∃ e ∈ history, (e.adds? family id).isSome = true) ∧
    (∀ id family n, s.table.find? id family = some n ↔ Recalls family id history n) ∧
    (∀ family, ((s.table.nodes family).Pairwise fun a b => a.id < b.id) ∧
      ∀ n, n ∈ s.table.nodes family ↔ s.table.find? n.id family = some n) ∧
    ∀ id status family,
      let reply := s.step (.update id status family)
      reply.answer = .known (s.table.find? id family).isSome ∧ reply.session.now = s.now ∧
      reply.session.table.config = s.table.config ∧ ∀ other,
        reply.session.table.buckets other = s.table.buckets other ∧
        reply.session.table.nodes other =
          (s.table.nodes other).map (fun n => if other = family ∧ n.id = id then n.report status s.now else n) ∧
        (reply.session.table.nodes other).map Node.contact = (s.table.nodes other).map Node.contact := by
  intro s history
  have hs : s.Proper config := Session.proper_run config ops
  have hfind := Session.find?_run_eq_some_iff config ops
  refine ⟨fun id family => ?_, hfind, fun family => ⟨(hs.sound family).ascending, fun n => ?_⟩, ?_⟩
  · rw [Option.isSome_iff_exists]
    constructor
    · rintro ⟨n, hn⟩
      obtain ⟨before, e, after, added, hhistory, hadds, -⟩ := (hfind id family n).1 hn
      refine ⟨e, ?_, by rw [hadds]; rfl⟩
      show e ∈ (Session.start config).history ops
      rw [hhistory]
      exact List.mem_append_right before List.mem_cons_self
    · rintro ⟨e, he, hadds⟩
      obtain ⟨added, hadded⟩ := Option.isSome_iff_exists.1 hadds
      obtain ⟨before, after, hhistory⟩ := List.append_of_mem he
      exact ⟨_, (hfind id family _).2 (recalls_iff.2 ⟨before, e, after, added, hhistory, hadded, rfl⟩)⟩
  · rw [Table.find?, (hs.sound family).find?_eq_some_iff]
    exact ⟨fun hn => ⟨hn, rfl⟩, And.left⟩
  · intro id status family reply
    obtain ⟨hanswer, hnow, hconfig, hdirectory⟩ := hs.step_update id status family
    refine ⟨hanswer, hnow, hconfig, fun other => ⟨(hdirectory other).1, (hdirectory other).2, ?_⟩⟩
    rw [(hdirectory other).2, List.map_map]
    refine List.map_congr_left fun n _ => ?_
    simp only [Function.comp_apply]
    split <;> rfl

end Kademlia
