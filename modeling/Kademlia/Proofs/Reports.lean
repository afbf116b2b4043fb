import Kademlia.Proofs.Offers

/-!
# What an offer reports

An offer splits a bucket only if it is full, that is, if it has exactly eight nodes, and goes on at the half that has the id. If this
half is full as well, all eight nodes are in it and none is in the other one. So the reports of an offer tell what it did: of each
split where it was and how the eight nodes were divided, none of them in the half without the id unless the offer went no further,
and at the end whether a full bucket turned the node away (`Descent.exists_traced`). Each report is a line of the log, and the lines
are spelled out here, so the log alone tells as much (`run_insert_lines`).
-/

namespace Kademlia

/-- A split as it is reported: the end of the lower half, and how many nodes either half has. -/
structure SplitReport where
  mid : Key
  lower : Nat
  upper : Nat
deriving DecidableEq

namespace SplitReport

/-- The report of a split. -/
def event (family : Family) (c : SplitReport) : Event := .bucketSplit family c.mid c.lower c.upper

/-- The line of the log on a split. -/
def line (family : Family) (c : SplitReport) : String :=
  "DEBUG " ++ (family.text ++ ": split bucket at " ++ c.mid.text ++
    " (" ++ toString c.lower ++ " / " ++ toString c.upper ++ " nodes)")

theorem line_event (family : Family) (c : SplitReport) : (c.event family).line = c.line family := rfl

/-- Whether the half that does not have an id has no nodes. -/
def Lopsided (id : Key) (c : SplitReport) : Prop := if id ≤ c.mid then c.upper = 0 else c.lower = 0

instance (id : Key) (c : SplitReport) : Decidable (c.Lopsided id) :=
  inferInstanceAs (Decidable (if id ≤ c.mid then c.upper = 0 else c.lower = 0))

/-- The split of a bucket into two halves. -/
def ofHalves (lower upper : Bucket) : SplitReport := ⟨lower.max, lower.count, upper.count⟩

end SplitReport

/-- The line of the log on a node that a full bucket turns away. -/
def Bucket.refusalLine (family : Family) (b : Bucket) (id : Key) : String :=
  "TRACE " ++ (family.text ++ ": bucket " ++ ("[" ++ b.min.text ++ ", " ++ b.max.text ++ "]") ++ " full, dropping " ++ id.text)

theorem Bucket.line_bucketFull (family : Family) (b : Bucket) (id : Key) :
    (Event.bucketFull family b.min b.max id).line = b.refusalLine family id := rfl

/-- The line of the log on a node that finds the limit of the table reached. -/
def limitLine (id : Key) : String := "TRACE " ++ ("routing table full, dropping " ++ id.text)

theorem line_tableFull (id : Key) : (Event.tableFull id).line = limitLine id := rfl

/-- How splits for an id show in the buckets: each brings one more, which ends where it was. Each divides eight nodes, all but the last
of them so that the half without the id has none. -/
structure Explains (id : Key) (splits : List SplitReport) (buckets after : List Bucket) : Prop where
  ends : (after.map Bucket.max).Perm (splits.map SplitReport.mid ++ buckets.map Bucket.max)
  sum_eq : ∀ c ∈ splits, c.lower + c.upper = Bucket.capacity
  lopsided : ∀ c ∈ splits.dropLast, c.Lopsided id

/-- An element in front of a list is one of those but the last unless the list is empty. -/
theorem forall_mem_dropLast_cons {α : Type} {P : α → Prop} {x : α} {xs : List α} (hx : xs ≠ [] → P x)
    (hxs : ∀ y ∈ xs.dropLast, P y) : ∀ y ∈ (x :: xs).dropLast, P y := by
  cases xs with
  | nil => exact nofun
  | cons y ys => exact List.forall_mem_cons.2 ⟨hx (List.cons_ne_nil y ys), hxs⟩

namespace Explains

variable {id : Key} {splits : List SplitReport} {buckets after : List Bucket}

/-- Without a split the buckets have the same ends. -/
theorem nil (h : after.map Bucket.max = buckets.map Bucket.max) : Explains id [] buckets after :=
  ⟨by rw [h]; exact List.Perm.refl _, nofun, nofun⟩

/-- Each split brings one bucket more. -/
theorem length_eq (h : Explains id splits buckets after) : after.length = buckets.length + splits.length := by
  have hlength := h.ends.length_eq
  simp only [List.length_map, List.length_append] at hlength
  omega

/-- Other buckets do not matter to the splits of a bucket. -/
theorem append {b : Bucket} (h : Explains id splits [b] after) (before behind : List Bucket) :
    Explains id splits (before ++ b :: behind) (before ++ after ++ behind) := by
  refine ⟨?_, h.sum_eq, h.lopsided⟩
  have hends := (h.ends.append_left (before.map Bucket.max)).append_right (behind.map Bucket.max)
  simp only [List.map_append, List.map_cons]
  refine hends.trans ?_
  rw [List.append_assoc, List.append_assoc]
  exact List.perm_append_comm_assoc _ _ _

end Explains

/-! ## Descents -/

namespace Bucket.Fits

variable {nodes : List Node} {now : Int} {b lower upper : Bucket} {height : Nat} {id : Key}

/-- The halves of a full bucket have eight nodes. -/
theorem add_count_halves (h : b.Fits nodes height) (hfull : b.isFull = true) (halves : b.Halves nodes now lower upper) :
    lower.count + upper.count = Bucket.capacity := by
  rw [halves.lower_count, halves.upper_count, ← halves.population_add, h.count_eq hfull]

/-- If the lower half of a full bucket is full, then the upper one has no nodes. -/
theorem lopsided_of_lower (h : b.Fits nodes height) (hfull : b.isFull = true) (halves : b.Halves nodes now lower upper)
    (hid : lower.contains id = true) (hlower : lower.isFull = true) : (SplitReport.ofHalves lower upper).Lopsided id := by
  have hsum := h.add_count_halves hfull halves
  have hcount := isFull_iff.1 hlower
  have hle : id ≤ lower.max := Octets.le_iff.2 (contains_iff.1 hid).2
  show if id ≤ lower.max then upper.count = 0 else lower.count = 0
  rw [if_pos hle]
  omega

/-- If the upper half of a full bucket is full, then the lower one has no nodes. -/
theorem lopsided_of_upper (h : b.Fits nodes height) (hfull : b.isFull = true) (halves : b.Halves nodes now lower upper)
    (hid : upper.contains id = true) (hupper : upper.isFull = true) : (SplitReport.ofHalves lower upper).Lopsided id := by
  have hsum := h.add_count_halves hfull halves
  have hcount := isFull_iff.1 hupper
  have hmin := halves.toNat_upper_min
  have hkey := (contains_iff.1 hid).1
  have hlt : ¬id ≤ lower.max := by
    rw [Octets.le_iff]
    omega
  show if id ≤ lower.max then upper.count = 0 else lower.count = 0
  rw [if_neg hlt]
  omega

end Bucket.Fits

/-- What the offer of a new id reports that starts at a bucket: the splits, and at the end nothing if the node is added, or the full
bucket of the id that turns it away. A half that is split or that turns the node away is full. -/
structure Traced (family : Family) (id : Key) (b : Bucket) (outcome : Outcome) (bs : List Bucket) (splits : List SplitReport)
    (closing : List Event) : Prop where
  explains : Explains id splits [b] bs
  isFull : splits ≠ [] ∨ outcome = .bucketFull → b.isFull = true
  closed : outcome = .added ∧ closing = [] ∨
    outcome = .bucketFull ∧ (∀ c ∈ splits, c.Lopsided id) ∧
      ∃ full ∈ bs, full.contains id = true ∧ full.isFull = true ∧ closing = [.bucketFull family full.min full.max id]

/-- A split before others: the half with the id is the bucket at which they start. -/
theorem Traced.cons {family : Family} {id : Key} {b half : Bucket} {outcome : Outcome} {bs after : List Bucket}
    {c : SplitReport} {splits : List SplitReport} {closing : List Event} (h : Traced family id half outcome bs splits closing)
    (hfull : b.isFull = true) (hsum : c.lower + c.upper = Bucket.capacity) (hhalf : half.isFull = true → c.Lopsided id)
    (hends : (after.map Bucket.max).Perm (c.mid :: splits.map SplitReport.mid ++ [b.max])) (hsub : ∀ x ∈ bs, x ∈ after) :
    Traced family id b outcome after (c :: splits) closing := by
  refine ⟨⟨hends, ?_, ?_⟩, fun _ => hfull, h.closed.imp_right ?_⟩
  · exact List.forall_mem_cons.2 ⟨hsum, h.explains.sum_eq⟩
  · exact forall_mem_dropLast_cons (fun hne => hhalf (h.isFull (Or.inl hne))) h.explains.lopsided
  · rintro ⟨houtcome, hlopsided, full, hmem, hrest⟩
    exact ⟨houtcome, List.forall_mem_cons.2 ⟨hhalf (h.isFull (Or.inr houtcome)), hlopsided⟩, full, hsub full hmem, hrest⟩

/-- The reports of a descent are those of its splits and the closing one. -/
theorem Descent.exists_traced {family : Family} {nodes : List Node} {now : Int} {rule : SplitRule} {id : Key} {b : Bucket}
    {outcome : Outcome} {bs : List Bucket} {events : List Event} {height : Nat}
    (h : Descent family nodes now rule id b outcome bs events) (hb : b.Fits nodes height) (hid : b.contains id = true) :
    ∃ splits closing, events = splits.map (SplitReport.event family) ++ closing ∧
      Traced family id b outcome bs splits closing := by
  -- the splits that follow one start at the half with the id
  induction h generalizing height with
  | room hfull => exact ⟨[], [], rfl, .nil rfl, by simp, Or.inl ⟨rfl, rfl⟩⟩
  | refused hfull hrule =>
    exact ⟨[], _, rfl, .nil rfl, fun _ => hfull, Or.inr ⟨rfl, nofun, _, List.mem_singleton_self _, hid, hfull, rfl⟩⟩
  | @inLower b lower upper outcome bs events hfull hrule halves hin rest ih =>
    obtain ⟨height, rfl⟩ := hb.block.exists_height hrule
    obtain ⟨splits, closing, rfl, htraced⟩ := ih (hb.halves halves).1 hin
    refine ⟨.ofHalves lower upper :: splits, closing, rfl, htraced.cons hfull (hb.add_count_halves hfull halves)
      (hb.lopsided_of_lower hfull halves hin) ?_ fun c hc => List.mem_append_left _ hc⟩
    have hends := htraced.explains.ends.append_right [b.max]
    rw [List.map_append, List.map_singleton, halves.upper_max]
    exact hends.trans ((List.perm_append_singleton lower.max _).append_right [b.max])
  | @inUpper b lower upper outcome bs events hfull hrule halves hin rest ih =>
    obtain ⟨height, rfl⟩ := hb.block.exists_height hrule
    obtain ⟨splits, closing, rfl, htraced⟩ := ih (hb.halves halves).2 hin
    refine ⟨.ofHalves lower upper :: splits, closing, rfl, htraced.cons hfull (hb.add_count_halves hfull halves)
      (hb.lopsided_of_upper hfull halves hin) ?_ fun c hc => List.mem_cons_of_mem _ hc⟩
    have hends := htraced.explains.ends.cons lower.max
    rwa [List.map_singleton, halves.upper_max] at hends

/-! ## Directories -/

/-- What the offer of a node to a directory reports. -/
theorem Directory.Sound.exists_splits {family : Family} {d : Directory family} (hd : d.Sound) (now : Int) (rule : SplitRule)
    (node : Node) :
    let insertion := d.insert now rule node
    ∃ splits closing, insertion.events = splits.map (SplitReport.event family) ++ closing ∧
      Explains node.id splits d.buckets.items insertion.state.buckets.items ∧
      (insertion.outcome = .added ∧ closing = [] ∨ insertion.outcome = .alreadyPresent ∧ splits = [] ∧ closing = [] ∨
        insertion.outcome = .bucketFull ∧ (∀ c ∈ splits, c.Lopsided node.id) ∧ ∃ b ∈ insertion.state.buckets.items,
          b.contains node.id = true ∧ b.isFull = true ∧ closing = [.bucketFull family b.min b.max node.id]) := by
  intro insertion
  by_cases hid : d.nodes.Holds node.id
  · have hinsertion : insertion = ⟨.alreadyPresent, d, []⟩ := insert_of_holds hd.ascending hd.tiles hid
    rw [hinsertion]
    exact ⟨[], [], rfl, .nil rfl, Or.inr (Or.inl ⟨rfl, rfl, rfl⟩)⟩
  · obtain ⟨before, b, behind, height, outcome, bs, events, hb, hkey, hfits, hdescent, hresult⟩ :=
      hd.exists_descent hid now rule
    have hinsertion : insertion = _ := hresult
    obtain ⟨splits, closing, rfl, htraced⟩ := hdescent.exists_traced hfits hkey
    rw [hinsertion, hb]
    refine ⟨splits, closing, rfl, htraced.explains.append before behind, htraced.closed.imp_right ?_⟩
    rintro ⟨houtcome, hlopsided, full, hfull, hrest⟩
    exact Or.inr ⟨houtcome, hlopsided, full, List.mem_append_left _ (List.mem_append_right _ hfull), hrest⟩

/-- What the offer of a node reports after any run: the splits, as many as the family gained buckets, and then what the answer calls
for. -/
theorem exists_insert_events (config : Config) (ops : List Operation) (contact : Contact) (status : Status) (age : Int) :
    let s := (Session.start config).run ops
    let reply := s.step (.insert contact status age)
    let buckets := s.table.buckets contact.family
    let after := reply.session.table.buckets contact.family
    ∃ splits closing, reply.events = splits.map (SplitReport.event contact.family) ++ closing ∧
      after.length = buckets.length + splits.length ∧
      (after.map Bucket.max).Perm (splits.map SplitReport.mid ++ buckets.map Bucket.max) ∧
      (∀ c ∈ splits, c.lower + c.upper = 8) ∧
      (∀ c ∈ splits.dropLast, c.Lopsided contact.id) ∧
      ((reply.answer = .outcome .added ∧ closing = []) ∨
        (reply.answer = .outcome .alreadyPresent ∧ splits = [] ∧ closing = []) ∨
        (reply.answer = .outcome .tableFull ∧ splits = [] ∧ closing = [.tableFull contact.id]) ∨
        (reply.answer = .outcome .bucketFull ∧ (∀ c ∈ splits, c.Lopsided contact.id) ∧ ∃ b ∈ after,
          b.contains contact.id = true ∧ b.isFull = true ∧ closing = [.bucketFull contact.family b.min b.max contact.id])) := by
  intro s reply buckets after
  have hd : (s.table.directory contact.family).Sound := Session.run_sound config ops contact.family
  rcases Nat.lt_or_ge s.table.size s.table.config.maxNodes with hroom | hfull
  · let insertion := (s.table.directory contact.family).insert s.now s.table.config.toSplitRule ⟨contact, status, s.now - age⟩
    obtain ⟨splits, closing, hevents, hexplains, hclosed⟩ :=
      hd.exists_splits s.now s.table.config.toSplitRule ⟨contact, status, s.now - age⟩
    have hreply : reply = _ := Session.step_insert_of_room hroom contact status age
    have hafter : after = insertion.state.buckets.items := by
      simp only [after, hreply, Table.buckets, Table.directory_setDirectory_self, insertion]
    have hanswer : reply.answer = .outcome insertion.outcome := by rw [hreply]
    rw [← hafter] at hexplains hclosed
    refine ⟨splits, closing, by rw [hreply]; exact hevents, hexplains.length_eq, hexplains.ends, hexplains.sum_eq,
      hexplains.lopsided, ?_⟩
    simp only [hanswer, Answer.outcome.injEq]
    rcases hclosed with hadded | hknown | hrefused
    · exact Or.inl hadded
    · exact Or.inr (Or.inl hknown)
    · exact Or.inr (Or.inr (Or.inr hrefused))
  · have hreply : reply = _ := Session.step_insert_of_full hfull contact status age
    have hafter : after = buckets := by simp only [after, hreply, buckets]
    have hexplains : Explains contact.id [] buckets after := .nil (by rw [hafter])
    refine ⟨[], [.tableFull contact.id], by rw [hreply]; rfl, hexplains.length_eq, hexplains.ends, hexplains.sum_eq,
      hexplains.lopsided, ?_⟩
    exact Or.inr (Or.inr (Or.inl ⟨by rw [hreply], rfl, rfl⟩))

/-- Whatever a session asked before, what an offer writes to the log is a faithful account of what it did. There is one line for each
split, as many as the family gained buckets, and it names where the new bucket ends. The counts of each split add up to eight, and in
all but the last of them the half without the id has no nodes. What follows shows the answer: nothing if the node is added; nothing,
and no split either, if it is known; only the line on the limit if that was reached; one line on the full bucket if one turns the node
away, and then the last split is as lopsided as the others. -/
theorem run_insert_lines (config : Config) (ops : List Operation) (contact : Contact) (status : Status) (age : Int) :
    let s := (Session.start config).run ops
    let reply := s.step (.insert contact status age)
    let buckets := s.table.buckets contact.family
    let after := reply.session.table.buckets contact.family
    ∃ (splits : List SplitReport) (closing : List String),
      reply.events.map Event.line = splits.map (SplitReport.line contact.family) ++ closing ∧
      after.length = buckets.length + splits.length ∧
      (after.map Bucket.max).Perm (splits.map SplitReport.mid ++ buckets.map Bucket.max) ∧
      (∀ c ∈ splits, c.lower + c.upper = 8) ∧
      (∀ c ∈ splits.dropLast, c.Lopsided contact.id) ∧
      ((reply.answer = .outcome .added ∧ closing = []) ∨
        (reply.answer = .outcome .alreadyPresent ∧ splits = [] ∧ closing = []) ∨
        (reply.answer = .outcome .tableFull ∧ splits = [] ∧ closing = [limitLine contact.id]) ∨
        (reply.answer = .outcome .bucketFull ∧ (∀ c ∈ splits, c.Lopsided contact.id) ∧ ∃ b ∈ after,
          b.contains contact.id = true ∧ b.isFull = true ∧ closing = [b.refusalLine contact.family contact.id])) := by
  intro s reply buckets after
  obtain ⟨splits, closing, hevents, hlength, hends, hsum, hlopsided, hcases⟩ :=
    exists_insert_events config ops contact status age
  refine ⟨splits, closing.map Event.line, ?_, hlength, hends, hsum, hlopsided, ?_⟩
  · rw [show reply.events = _ from hevents, List.map_append, List.map_map]
    exact congrArg (· ++ _) (List.map_congr_left fun c _ => c.line_event contact.family)
  · rcases hcases with ⟨hadded, rfl⟩ | ⟨hknown, hnone, rfl⟩ | ⟨hlimit, hnone, rfl⟩ | ⟨hrefused, hall, b, hb, hid, hfull, rfl⟩
    · exact Or.inl ⟨hadded, rfl⟩
    · exact Or.inr (Or.inl ⟨hknown, hnone, rfl⟩)
    · exact Or.inr (Or.inr (Or.inl ⟨hlimit, hnone, congrArg (fun line => [line]) (line_tableFull contact.id)⟩))
    · exact Or.inr (Or.inr (Or.inr ⟨hrefused, hall, b, hb, hid, hfull,
        congrArg (fun line => [line]) (b.line_bucketFull contact.family contact.id)⟩))

/-- Nine ids that agree with our own in the first nine bits and with each other in more. The ninth splits ten buckets, each time with
all eight nodes in one half, until the eight are in a bucket that does not have our own id, and then it is turned away. The first and
the last line of the log are shown. -/
theorem run_insert_lines_of_ten_splits :
    let config : Config := { ownId := Key.lowest, acceptAll := false, maxNodes := 20, closestCount := 16 }
    let offer (k : Nat) := Operation.insert ⟨Key.ofNat (2 ^ 150 + k), .v4 (Octets.lowest 4) 0⟩ .good 0
    let s := (Session.start config).run ((List.range 8).map offer)
    let lines := (s.step (offer 8)).events.map Event.line
    (∃ (splits : List SplitReport) (b : Bucket),
      lines = splits.map (SplitReport.line .v4) ++ [b.refusalLine .v4 (Key.ofNat (2 ^ 150 + 8))] ∧
      splits.length = 10 ∧ (∀ c ∈ splits, c.lower + c.upper = 8) ∧ ∀ c ∈ splits, c.Lopsided (Key.ofNat (2 ^ 150 + 8))) ∧
    lines.head? = some "DEBUG IPv4: split bucket at 7fffffffffffffffffffffffffffffffffffffff (8 / 0 nodes)" ∧
    lines.getLast? = some ("TRACE IPv4: bucket [0040000000000000000000000000000000000000, " ++
      "007fffffffffffffffffffffffffffffffffffff] full, dropping 0040000000000000000000000000000000000008") := by
  intro config offer s lines
  have hanswer : (s.step (offer 8)).answer = .outcome .bucketFull := by decide +kernel
  have hbefore : (s.table.buckets .v4).length = 1 := by decide +kernel
  have hafter : ((s.step (offer 8)).session.table.buckets .v4).length = 11 := by decide +kernel
  refine ⟨?_, by decide +kernel, by decide +kernel⟩
  obtain ⟨splits, closing, hlines, hlength, -, hsum, -, hcases⟩ :=
    run_insert_lines config ((List.range 8).map offer) ⟨Key.ofNat (2 ^ 150 + 8), .v4 (Octets.lowest 4) 0⟩ .good 0
  rcases hcases with ⟨hcase, -⟩ | ⟨hcase, -⟩ | ⟨hcase, -⟩ | ⟨-, hlopsided, b, -, -, -, rfl⟩
  · exact absurd (hanswer.symm.trans hcase) nofun
  · exact absurd (hanswer.symm.trans hcase) nofun
  · exact absurd (hanswer.symm.trans hcase) nofun
  · have hgained : 11 = 1 + splits.length := by
      rw [← hbefore, ← hafter]
      exact hlength
    exact ⟨splits, b, hlines, by omega, hsum, hlopsided⟩

end Kademlia
