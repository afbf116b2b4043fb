import Kademlia.Proofs.History

/-!
# Offers that come again

An offer leaves its id refused (`Directory.Refuses`): the id is known from then on, or it lies in a full bucket that may not be
split. Such a bucket is never touched again, so the directory refuses the id until it is cleared, however many other nodes are offered
in between. A table that has reached its limit on the nodes of both families stays full in the same way. Therefore an offer of an id
that was offered before, whatever became of it then, adds no node and changes nothing.
-/

namespace Kademlia

namespace Descent

variable {family : Family} {nodes : List Node} {now : Int} {rule : SplitRule} {b : Bucket} {id : Key} {outcome : Outcome}
  {bs : List Bucket} {events : List Event}

/-- A full bucket that may not be split stays as it is. -/
theorem of_not_allowed (h : Descent family nodes now rule id b outcome bs events) (hfull : b.isFull = true)
    (hrule : rule.allows b = false) : outcome = .bucketFull ∧ bs = [b] := by
  cases h with
  | room hroom =>
    rw [hfull] at hroom
    cases hroom
  | refused => exact ⟨rfl, rfl⟩
  | inLower _ hallows | inUpper _ hallows =>
    rw [hrule] at hallows
    cases hallows

/-- A descent adds the node, or ends at a full bucket of its id that may not be split. -/
theorem exists_refusing (h : Descent family nodes now rule id b outcome bs events) (hid : b.contains id = true) :
    outcome = .added ∨
      outcome = .bucketFull ∧ ∃ c ∈ bs, c.contains id = true ∧ c.isFull = true ∧ rule.allows c = false := by
  induction h with
  | room hfull => exact Or.inl rfl
  | @refused b hfull hrule => exact Or.inr ⟨rfl, b, List.mem_singleton_self b, hid, hfull, hrule⟩
  | inLower hfull hrule halves hin rest ih =>
    refine (ih hin).imp_right ?_
    rintro ⟨rfl, c, hc, hrest⟩
    exact ⟨rfl, c, List.mem_append_left _ hc, hrest⟩
  | inUpper hfull hrule halves hin rest ih =>
    refine (ih hin).imp_right ?_
    rintro ⟨rfl, c, hc, hrest⟩
    exact ⟨rfl, c, List.mem_cons_of_mem _ hc, hrest⟩

end Descent

namespace Directory

variable {family : Family} {d : Directory family} {now : Int} {rule : SplitRule} {node : Node} {id : Key}

/-! ## Directories -/

/-- A full bucket of an id that may not be split. -/
def TurnsAway (d : Directory family) (rule : SplitRule) (id : Key) : Prop :=
  ∃ b ∈ d.buckets.items, b.contains id = true ∧ b.isFull = true ∧ rule.allows b = false

/-- Whether a directory does not take an id, because it is known or has no room in a bucket that may not be split. -/
def Refuses (d : Directory family) (rule : SplitRule) (id : Key) : Prop := d.nodes.Holds id ∨ d.TurnsAway rule id

/-- A refused id changes nothing when it is offered. -/
theorem Refuses.insert_eq (h : d.Refuses rule node.id) (hd : d.Sound) (now : Int) :
    (d.insert now rule node).outcome ≠ .added ∧ (d.insert now rule node).state = d := by
  by_cases hid : d.nodes.Holds node.id
  · rw [insert_of_holds hd.ascending hd.tiles hid]
    exact ⟨nofun, rfl⟩
  · obtain ⟨c, hc, hcontains, hfull, hrule⟩ := h.resolve_left hid
    obtain ⟨before, b, behind, height, outcome, bs, events, hb, hkey, hfits, hdescent, hresult⟩ :=
      hd.exists_descent hid now rule
    obtain rfl := eq_of_contains hd.tiles hb hkey hc hcontains
    obtain ⟨rfl, rfl⟩ := hdescent.of_not_allowed hfull hrule
    rw [hresult]
    refine ⟨nofun, ?_⟩
    simp [nodesAfter, ← hb]

/-- No offer forgets a node. -/
theorem Sound.holds_insert (hd : d.Sound) (now : Int) (rule : SplitRule) (node : Node) (h : d.nodes.Holds id) :
    (d.insert now rule node).state.nodes.Holds id := by
  obtain ⟨n, hn, hid⟩ := h
  exact ⟨n, (hd.mem_nodes_insert now rule node).2 (Or.inl hn), hid⟩

/-- No offer touches a full bucket that may not be split. -/
theorem Sound.mem_insert (hd : d.Sound) (now : Int) (node : Node) {b : Bucket} (hb : b ∈ d.buckets.items)
    (hfull : b.isFull = true) (hrule : rule.allows b = false) : b ∈ (d.insert now rule node).state.buckets.items := by
  by_cases hid : d.nodes.Holds node.id
  · rw [insert_of_holds hd.ascending hd.tiles hid]
    exact hb
  · obtain ⟨before, c, behind, height, outcome, bs, events, hc, hkey, hfits, hdescent, hresult⟩ :=
      hd.exists_descent hid now rule
    rw [hc, List.mem_append, List.mem_cons] at hb
    rw [hresult]
    simp only [List.mem_append]
    rcases hb with hb | rfl | hb
    · exact Or.inl (Or.inl hb)
    · obtain ⟨-, rfl⟩ := hdescent.of_not_allowed hfull hrule
      exact Or.inl (Or.inr (List.mem_singleton_self b))
    · exact Or.inr hb

/-- A refused id is refused after every other offer. -/
theorem Refuses.insert (h : d.Refuses rule id) (hd : d.Sound) (now : Int) (node : Node) :
    (d.insert now rule node).state.Refuses rule id := by
  rcases h with hid | ⟨b, hb, hcontains, hfull, hrule⟩
  · exact Or.inl (hd.holds_insert now rule node hid)
  · exact Or.inr ⟨b, hd.mem_insert now node hb hfull hrule, hcontains, hfull, hrule⟩

/-- An offer ends with the id known, or with its bucket full and not to be split. -/
theorem Sound.insert_cases (hd : d.Sound) (now : Int) (rule : SplitRule) (node : Node) :
    (d.insert now rule node).state.nodes.Holds node.id ∧
        ((d.insert now rule node).outcome = .added ∨ (d.insert now rule node).outcome = .alreadyPresent) ∨
      (d.insert now rule node).state.TurnsAway rule node.id ∧ (d.insert now rule node).outcome = .bucketFull := by
  by_cases hid : d.nodes.Holds node.id
  · rw [insert_of_holds hd.ascending hd.tiles hid]
    exact Or.inl ⟨hid, Or.inr rfl⟩
  · obtain ⟨before, b, behind, height, outcome, bs, events, hb, hkey, hfits, hdescent, hresult⟩ :=
      hd.exists_descent hid now rule
    rw [hresult]
    rcases hdescent.exists_refusing hkey with rfl | ⟨rfl, c, hc, hrest⟩
    · exact Or.inl ⟨⟨node, (NodeList.add_perm hd.ascending hid).mem_iff.2 List.mem_cons_self, rfl⟩, Or.inl rfl⟩
    · exact Or.inr ⟨⟨c, List.mem_append_left _ (List.mem_append_right _ hc), hrest⟩, rfl⟩

/-- The id of an offer is refused from then on. -/
theorem Sound.refuses_insert (hd : d.Sound) (now : Int) (rule : SplitRule) (node : Node) :
    (d.insert now rule node).state.Refuses rule node.id :=
  (hd.insert_cases now rule node).imp And.left And.left

/-- Reports change no id. -/
theorem Sound.holds_update (hd : d.Sound) {reported : Key} {status : Status} {d' : Directory family}
    (h : d.update? reported status now = some d') : d'.nodes.Holds id ↔ d.nodes.Holds id := by
  rw [update?_eq hd] at h
  split at h
  · obtain rfl := Option.some.inj h
    have hids := map_id_report d.nodes.items reported status now
    show (∃ n ∈ _, Node.id n = id) ↔ ∃ n ∈ _, Node.id n = id
    rw [← List.mem_map, ← List.mem_map, hids]
  · cases h

theorem Refuses.update (h : d.Refuses rule id) (hd : d.Sound) {reported : Key} {status : Status} {d' : Directory family}
    (hd' : d.update? reported status now = some d') : d'.Refuses rule id := by
  refine h.imp (hd.holds_update hd').2 fun haway => ?_
  unfold TurnsAway
  rw [hd.buckets_update hd']
  exact haway

/-- No offer makes a directory smaller. -/
theorem Sound.size_le_insert (hd : d.Sound) (now : Int) (rule : SplitRule) (node : Node) :
    d.size ≤ (d.insert now rule node).state.size := by
  by_cases hid : d.nodes.Holds node.id
  · rw [insert_of_holds hd.ascending hd.tiles hid]
  · have hperm := nodesAfter_perm hd.ascending hid (d.insert now rule node).outcome
    show d.nodes.items.length ≤ (d.insert now rule node).state.nodes.items.length
    rw [hd.nodes_insert, hperm.length_eq]
    rcases offered_cases d.nodes.items node (d.insert now rule node).outcome with he | he <;> rw [he]
    exact Nat.le_succ _

/-- Reports add and remove no node. -/
theorem Sound.size_update (hd : d.Sound) {status : Status} {d' : Directory family} (h : d.update? id status now = some d') :
    d'.size = d.size := by
  rw [update?_eq hd] at h
  split at h
  · obtain rfl := Option.some.inj h
    exact List.length_map _
  · cases h

end Directory

/-! ## Sessions -/

namespace Session

variable {s : Session} {config : Config} {op : Operation} {family : Family} {id : Key}

/-- Only a clearing makes a table smaller. -/
theorem Proper.size_le_step (hs : s.Proper config) (hop : op ≠ .clear) :
    s.table.size ≤ (s.step op).session.table.size := by
  have hle : ∀ family, (s.table.directory family).size ≤ ((s.step op).session.table.directory family).size := by
    intro family
    have hd := hs.sound family
    rcases step_directory_of_ne_clear s hop family with h | ⟨contact, status, age, -, -, -, h⟩ | ⟨id, status, -, h⟩
    · rw [h]
    · rw [h]
      exact hd.size_le_insert _ _ _
    · exact Nat.le_of_eq (hd.size_update h).symm
  exact Nat.add_le_add (hle .v4) (hle .v6)

/-- A directory goes on refusing an id until it is cleared. -/
theorem Proper.refuses_step (hs : s.Proper config) (hop : op ≠ .clear)
    (h : (s.table.directory family).Refuses config.toSplitRule id) :
    ((s.step op).session.table.directory family).Refuses config.toSplitRule id := by
  have hd := hs.sound family
  rcases step_directory_of_ne_clear s hop family with he | ⟨contact, status, age, -, -, -, he⟩ | ⟨reported, status, -, he⟩
  · rw [he]
    exact h
  · rw [he, hs.config_eq]
    exact h.insert hd _ _
  · exact h.update hd he

/-- An offer that the limit on the nodes of both families does not stop is neither refused for the limit nor given up. -/
theorem Proper.answer_insert_cases (hs : s.Proper config) (h : s.table.size < s.table.config.maxNodes) (contact : Contact)
    (status : Status) (age : Int) :
    (s.step (.insert contact status age)).answer = .outcome .added ∨
      (s.step (.insert contact status age)).answer = .outcome .alreadyPresent ∨
      (s.step (.insert contact status age)).answer = .outcome .bucketFull := by
  have hcases := (hs.sound contact.family).insert_cases s.now s.table.config.toSplitRule ⟨contact, status, s.now - age⟩
  rw [step_insert_of_room h]
  rcases hcases with ⟨-, houtcome | houtcome⟩ | ⟨-, houtcome⟩
  · exact Or.inl (congrArg Answer.outcome houtcome)
  · exact Or.inr (Or.inl (congrArg Answer.outcome houtcome))
  · exact Or.inr (Or.inr (congrArg Answer.outcome houtcome))

theorem Proper.answer_insert_of_room (hs : s.Proper config) (h : s.table.size < s.table.config.maxNodes) (contact : Contact)
    (status : Status) (age : Int) : (s.step (.insert contact status age)).answer ≠ .outcome .tableFull := by
  rcases hs.answer_insert_cases h contact status age with he | he | he <;> simp [he]

/-- Only an offer is ever stopped by the limit, and it is exactly if the limit was reached before. -/
theorem Proper.answer_eq_tableFull_iff (hs : s.Proper config) (op : Operation) :
    (s.step op).answer = .outcome .tableFull ↔
      config.maxNodes ≤ s.table.size ∧ ∃ contact status age, op = .insert contact status age := by
  cases op with
  | insert contact status age =>
    rw [← hs.config_eq]
    rcases Nat.lt_or_ge s.table.size s.table.config.maxNodes with hroom | hfull
    · simp [hs.answer_insert_of_room hroom contact status age, Nat.not_le.2 hroom]
    · simp [step_insert_of_full hfull, hfull]
  | update id status family =>
    simp only [step]
    cases s.table.update? id status family s.now <;> simp
  | advance | clear | find | closest | tally | nodes | buckets => simp [step]

/-- No offer is given up. -/
theorem Proper.answer_insert_ne_contended (hs : s.Proper config) (contact : Contact) (status : Status) (age : Int) :
    (s.step (.insert contact status age)).answer ≠ .outcome .contended := by
  rcases Nat.lt_or_ge s.table.size s.table.config.maxNodes with hroom | hfull
  · rcases hs.answer_insert_cases hroom contact status age with he | he | he <;> simp [he]
  · simp [step_insert_of_full hfull]

/-- An entry offers an id to a family if it is the offer of a contact with this id and family, and the table has not reached its
limit. -/
theorem Proper.offeredTo?_entry (hs : s.Proper config) :
    (s.entry op).offeredTo? family = some id ↔
      s.table.size < s.table.config.maxNodes ∧
        ∃ contact status age, op = .insert contact status age ∧ contact.family = family ∧ contact.id = id := by
  cases op with
  | insert contact status age =>
    rcases Nat.lt_or_ge s.table.size s.table.config.maxNodes with h | h
    · have hanswer := hs.answer_insert_of_room h contact status age
      simp [entry, Entry.offeredTo?, hanswer, h]
    · simp [entry, Entry.offeredTo?, step_insert_of_full h, Nat.not_lt.2 h]
  | advance | update | clear | find | closest | tally | nodes | buckets => simp [entry, Entry.offeredTo?]

/-- The offer of a contact that the directory of its family refuses changes nothing. -/
theorem Proper.step_insert_of_refuses (hs : s.Proper config) (h : s.table.size < s.table.config.maxNodes) {contact : Contact}
    (hrefuses : (s.table.directory contact.family).Refuses config.toSplitRule contact.id) (status : Status) (age : Int) :
    (s.step (.insert contact status age)).answer ≠ .outcome .added ∧ (s.step (.insert contact status age)).session = s := by
  obtain ⟨node, hnode⟩ : ∃ node : Node, node = ⟨contact, status, s.now - age⟩ := ⟨_, rfl⟩
  have hid : node.id = contact.id := by rw [hnode]; rfl
  rw [← hid] at hrefuses
  obtain ⟨houtcome, hstate⟩ := hrefuses.insert_eq (hs.sound contact.family) s.now
  rw [step_insert_of_room h, hs.config_eq, ← hnode]
  simp only [hstate, Table.setDirectory_directory, ne_eq, Answer.outcome.injEq, and_true]
  exact houtcome

/-- The ids that were offered to a family since the last clearing are refused by its directory. -/
theorem run_refuses (config : Config) (ops : List Operation) (family : Family) :
    ∀ id ∈ offeredIds family ((start config).history ops),
      (((start config).run ops).table.directory family).Refuses config.toSplitRule id := by
  refine run_history (P := fun s history => ∀ id ∈ offeredIds family history,
    (s.table.directory family).Refuses config.toSplitRule id) config ?_ ?_ ?_ ops
  · intro id hid
    simp [offeredIds] at hid
  · intro s hs id hid
    simp [offeredIds] at hid
  · intro s history op hs hop ih id hid
    rcases mem_offeredIds_concat.1 hid with hid | hid
    · exact hs.refuses_step hop (ih id hid)
    · obtain ⟨hroom, contact, status, age, rfl, rfl, rfl⟩ := hs.offeredTo?_entry.1 hid
      rw [step_insert_of_room hroom, Table.directory_setDirectory_self, hs.config_eq]
      exact (hs.sound contact.family).refuses_insert _ _ _

/-- A table that has reached its limit since the last clearing is at its limit. -/
theorem run_full (config : Config) (ops : List Operation) :
    (∃ e ∈ (start config).history ops, e.answer = .outcome .tableFull) →
      config.maxNodes ≤ ((start config).run ops).table.size := by
  refine run_history (P := fun s history => (∃ e ∈ history, e.answer = .outcome .tableFull) →
    config.maxNodes ≤ s.table.size) config ?_ ?_ ?_ ops
  · rintro ⟨e, he, -⟩
    cases he
  · rintro s hs ⟨e, he, -⟩
    cases he
  · rintro s history op hs hop ih ⟨e, he, hanswer⟩
    refine Nat.le_trans ?_ (hs.size_le_step hop)
    rcases List.mem_append.1 he with he | he
    · exact ih ⟨e, he, hanswer⟩
    · rw [List.mem_singleton.1 he] at hanswer
      exact ((hs.answer_eq_tableFull_iff op).1 hanswer).1

end Session

/-- Once a contact was offered, whatever the answer was, every later offer of its id to its family adds no node and leaves the session
as it is, until the table is cleared. -/
theorem run_insert_again (config : Config) (ops : List Operation) {e : Entry} (he : e ∈ (Session.start config).history ops)
    {known : Contact} {knownStatus : Status} {knownAge : Int} (hop : e.operation = .insert known knownStatus knownAge)
    (contact : Contact) (hid : contact.id = known.id) (hfamily : contact.family = known.family) (status : Status) (age : Int) :
    let s := (Session.start config).run ops
    (s.step (.insert contact status age)).answer ≠ .outcome .added ∧ (s.step (.insert contact status age)).session = s := by
  intro s
  have hs : s.Proper config := Session.proper_run config ops
  rcases Nat.lt_or_ge s.table.size s.table.config.maxNodes with hroom | hfull
  · have hanswer : e.answer ≠ .outcome .tableFull := by
      intro hanswer
      rw [hs.config_eq] at hroom
      exact absurd hroom (Nat.not_lt.2 (Session.run_full config ops ⟨e, he, hanswer⟩))
    have hoffered : known.id ∈ offeredIds known.family ((Session.start config).history ops) :=
      mem_offeredIds.2 ⟨e, he, by simp [Entry.offeredTo?, hop, hanswer]⟩
    have hrefuses := Session.run_refuses config ops known.family known.id hoffered
    rw [← hid, ← hfamily] at hrefuses
    exact hs.step_insert_of_refuses hroom hrefuses status age
  · rw [Session.step_insert_of_full hfull]
    exact ⟨nofun, rfl⟩

/-- A ninth id that shares no bit with our own splits the bucket of all keys and is refused; offered again later, with another address,
it changes nothing. -/
theorem run_insert_again_of_bucketFull :
    let config : Config := { ownId := Key.lowest, acceptAll := false, maxNodes := 20, closestCount := 16 }
    let offer (k : Nat) := Operation.insert ⟨Key.ofNat (2 ^ 159 + k), .v4 (Octets.lowest 4) 0⟩ .good 0
    let ops := (List.range 9).map offer ++ [.advance 5, .insert ⟨Key.ofNat 1, .v4 (Octets.lowest 4) 0⟩ .good 0]
    let s := (Session.start config).run ops
    let reply := s.step (.insert ⟨Key.ofNat (2 ^ 159 + 8), .v4 (Octets.highest 4) 1⟩ .unknown 3)
    ⟨0, offer 8, .outcome .bucketFull⟩ ∈ (Session.start config).history ops ∧
      reply.answer ≠ .outcome .added ∧ reply.session = s := by
  intro config offer ops s reply
  have he : (⟨0, offer 8, .outcome .bucketFull⟩ : Entry) ∈ (Session.start config).history ops := by decide +kernel
  have hagain := run_insert_again config ops he rfl ⟨Key.ofNat (2 ^ 159 + 8), .v4 (Octets.highest 4) 1⟩ rfl rfl .unknown 3
  exact ⟨he, hagain⟩

end Kademlia
