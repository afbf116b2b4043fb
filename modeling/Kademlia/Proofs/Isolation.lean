import Kademlia.Proofs.History

/-!
# What one family shows of the other

The families of a table share its set-up, the clock, clearings and the limit on the number of nodes. The limit is the only one of these
through which the operations on one family reach the other. To see this, a session is set beside one from which all operations on the
other family are left out (`Session.Beside`): as long as no offer to the family meets the limit, the two answer alike and have the same
directory of the family (`Session.Beside.run`). So any two sessions that agree once the other family is left out agree on this family.
-/

namespace Kademlia

/-- Whether an operation is on a family, or on both. -/
def Operation.concerns (family : Family) : Operation → Bool
  | .advance _ | .clear => true
  | .insert contact _ _ => contact.family = family
  | .update _ _ other | .find _ other | .closest _ other _ | .tally other | .nodes other | .buckets other => other = family

namespace Session

variable {family : Family} {alone s : Session} {op : Operation}

/-- No offer to a family was stopped by the limit on the nodes of both families. -/
def NeverFull (family : Family) (s : Session) (ops : List Operation) : Prop :=
  ∀ e ∈ s.transcript ops, e.operation.concerns family = true → e.answer ≠ .outcome .tableFull

instance (family : Family) (s : Session) (ops : List Operation) : Decidable (NeverFull family s ops) :=
  inferInstanceAs (Decidable (∀ e ∈ s.transcript ops, e.operation.concerns family = true → e.answer ≠ .outcome .tableFull))

theorem NeverFull.of_append {ops more : List Operation} (h : NeverFull family s (ops ++ more)) : NeverFull family s ops := by
  intro e he
  exact h e (by rw [transcript_append]; exact List.mem_append_left _ he)

/-- Only the clock's own operation moves it. -/
theorem now_step_of_not_concerns (h : op.concerns family = false) (s : Session) : (s.step op).session.now = s.now := by
  cases op with
  | advance => cases h
  | update id status other =>
    simp only [step]
    split <;> rfl
  | insert | clear | find | closest | tally | nodes | buckets => rfl

/-- An operation on the other family leaves the directory of a family as it is. -/
theorem directory_step_of_not_concerns (h : op.concerns family = false) (s : Session) :
    (s.step op).session.table.directory family = s.table.directory family := by
  have hclear : op ≠ .clear := by
    rintro rfl
    cases h
  rcases step_directory_of_ne_clear s hclear family with hsame | ⟨contact, status, age, rfl, hfamily, -⟩ | ⟨id, status, rfl, -⟩
  · exact hsame
  · exact absurd hfamily (of_decide_eq_false h)
  · exact absurd rfl (of_decide_eq_false h)

/-! ## A session beside one on a single family -/

/-- A session on one family alone, beside one on both that has the same clock, set-up and directory of this family. -/
structure Beside (family : Family) (alone s : Session) : Prop where
  now_eq : alone.now = s.now
  config_eq : alone.table.config = s.table.config
  directory_eq : alone.table.directory family = s.table.directory family
  others_empty : ∀ other ≠ family, (alone.table.directory other).size = 0

namespace Beside

theorem start (config : Config) (family : Family) : Beside family (start config) (start config) :=
  ⟨rfl, rfl, rfl, fun other _ => by rw [Session.start, Table.directory_empty]; rfl⟩

/-- The table of the one family does not reach the limit before the other does. -/
theorem size_le (h : Beside family alone s) : alone.table.size ≤ s.table.size := by
  have hsize := congrArg Directory.size h.directory_eq
  cases family with
  | v4 =>
    have hother : alone.table.v6.size = 0 := h.others_empty .v6 (by decide)
    simp only [Table.size, Table.directory] at hsize ⊢
    omega
  | v6 =>
    have hother : alone.table.v4.size = 0 := h.others_empty .v4 (by decide)
    simp only [Table.size, Table.directory] at hsize ⊢
    omega

/-- An operation on the other family may be left out. -/
theorem skip (h : Beside family alone s) (hop : op.concerns family = false) : Beside family alone (s.step op).session where
  now_eq := h.now_eq.trans (now_step_of_not_concerns hop s).symm
  config_eq := h.config_eq.trans (config_step s op).symm
  directory_eq := h.directory_eq.trans (directory_step_of_not_concerns hop s).symm
  others_empty := h.others_empty

/-- The directory of the family may be exchanged for another in both. -/
theorem setDirectory (h : Beside family alone s) (d : Directory family) :
    Beside family ⟨s.now, alone.table.setDirectory family d⟩ ⟨s.now, s.table.setDirectory family d⟩ where
  now_eq := rfl
  config_eq := by
    rw [Table.config_setDirectory, Table.config_setDirectory]
    exact h.config_eq
  directory_eq := by rw [Table.directory_setDirectory_self, Table.directory_setDirectory_self]
  others_empty other hne := by
    rw [Table.directory_setDirectory_of_ne _ _ hne]
    exact h.others_empty other hne

/-- The offer of a contact of the family, if the limit does not stop it, is the same offer to the same directory. -/
theorem step_insert (h : Beside family alone s) {contact : Contact} (hfamily : contact.family = family) (status : Status) (age : Int)
    (hroom : s.table.size < s.table.config.maxNodes) :
    (alone.step (.insert contact status age)).answer = (s.step (.insert contact status age)).answer ∧
      Beside family (alone.step (.insert contact status age)).session (s.step (.insert contact status age)).session := by
  subst hfamily
  have hroom' : alone.table.size < alone.table.config.maxNodes := by
    rw [h.config_eq]
    exact Nat.lt_of_le_of_lt h.size_le hroom
  rw [step_insert_of_room hroom, step_insert_of_room hroom', h.now_eq, h.config_eq, h.directory_eq]
  exact ⟨rfl, h.setDirectory _⟩

/-- A report about an id of the family is the same report to the same directory. -/
theorem step_update (h : Beside family alone s) (id : Key) (status : Status) :
    (alone.step (.update id status family)).answer = (s.step (.update id status family)).answer ∧
      Beside family (alone.step (.update id status family)).session (s.step (.update id status family)).session := by
  simp only [step, Table.update?, h.now_eq, h.directory_eq]
  cases (s.table.directory family).update? id status s.now with
  | none => exact ⟨rfl, h⟩
  | some d => exact ⟨rfl, h.setDirectory d⟩

/-- An operation on the family, if the limit does not stop it, is answered alike and does the same to the directory of the family. -/
theorem step (h : Beside family alone s) (hop : op.concerns family = true) (hfull : (s.step op).answer ≠ .outcome .tableFull) :
    (alone.step op).answer = (s.step op).answer ∧ Beside family (alone.step op).session (s.step op).session := by
  cases op with
  | advance ms => exact ⟨rfl, congrArg (· + ms) h.now_eq, h.config_eq, h.directory_eq, h.others_empty⟩
  | insert contact status age =>
    rcases Nat.lt_or_ge s.table.size s.table.config.maxNodes with hroom | hge
    · exact h.step_insert (of_decide_eq_true hop) status age hroom
    · rw [step_insert_of_full hge] at hfull
      exact absurd rfl hfull
  | update id status other =>
    obtain rfl : other = family := of_decide_eq_true hop
    exact h.step_update id status
  | clear =>
    refine ⟨rfl, h.now_eq, h.config_eq, ?_, fun other _ => ?_⟩
    · rw [directory_step_clear, directory_step_clear, h.now_eq]
    · rw [directory_step_clear]
      rfl
  | find id other =>
    obtain rfl : other = family := of_decide_eq_true hop
    refine ⟨?_, h⟩
    simp only [Session.step, Table.find?, h.directory_eq]
  | closest target other count =>
    obtain rfl : other = family := of_decide_eq_true hop
    refine ⟨?_, h⟩
    simp only [Session.step, Table.closest, h.directory_eq, h.config_eq]
  | tally other =>
    obtain rfl : other = family := of_decide_eq_true hop
    refine ⟨?_, h⟩
    simp only [Session.step, Table.tally, h.directory_eq, h.now_eq]
  | nodes other =>
    obtain rfl : other = family := of_decide_eq_true hop
    refine ⟨?_, h⟩
    simp only [Session.step, Table.nodes, h.directory_eq]
  | buckets other =>
    obtain rfl : other = family := of_decide_eq_true hop
    refine ⟨?_, h⟩
    simp only [Session.step, Table.buckets, h.directory_eq]

/-- As long as no offer to the family meets the limit, its operations are answered as if there were no others. -/
theorem run (h : Beside family alone s) {ops : List Operation} (hfull : NeverFull family s ops) :
    alone.transcript (ops.filter (·.concerns family)) = (s.transcript ops).filter (·.operation.concerns family) ∧
      Beside family (alone.run (ops.filter (·.concerns family))) (s.run ops) := by
  induction ops generalizing alone s with
  | nil => exact ⟨rfl, h⟩
  | cons op ops ih =>
    obtain ⟨hhead, htail⟩ := List.forall_mem_cons.1 hfull
    cases hop : op.concerns family with
    | false =>
      obtain ⟨htranscript, hrun⟩ := ih (h.skip hop) htail
      rw [List.filter_cons_of_neg (by simp [hop]), transcript, List.filter_cons_of_neg (by simp [entry, hop])]
      exact ⟨htranscript, hrun⟩
    | true =>
      obtain ⟨hanswer, hstep⟩ := h.step hop (hhead hop)
      obtain ⟨htranscript, hrun⟩ := ih hstep htail
      rw [List.filter_cons_of_pos hop, transcript, transcript, List.filter_cons_of_pos (by exact hop), htranscript]
      refine ⟨?_, hrun⟩
      rw [entry, entry, h.now_eq, hanswer]

end Beside

end Session

/-- In two runs on tables of one set-up let the operations on a family, the clearings and the moves of the clock be the same in the same
order, whatever is done to the other family in between, and let no offer to the family be stopped by the limit on the nodes of both. Then
these operations are done at the same times with the same answers, and whenever as many of them are done in one run as in the other, the
clocks agree and so do the directories of the family, its nodes and its buckets with all that they record. -/
theorem run_noninterference (config : Config) (family : Family) {ops others : List Operation}
    (hsame : ops.filter (·.concerns family) = others.filter (·.concerns family))
    (hops : Session.NeverFull family (.start config) ops) (hothers : Session.NeverFull family (.start config) others) :
    let start := Session.start config
    (start.transcript ops).filter (·.operation.concerns family) = (start.transcript others).filter (·.operation.concerns family) ∧
      ∀ done othersDone, done <+: ops → othersDone <+: others →
        done.filter (·.concerns family) = othersDone.filter (·.concerns family) →
        (start.run done).now = (start.run othersDone).now ∧
          (start.run done).table.directory family = (start.run othersDone).table.directory family := by
  intro start
  have hstart := Session.Beside.start config family
  refine ⟨?_, ?_⟩
  · rw [← (hstart.run hops).1, ← (hstart.run hothers).1, hsame]
  · rintro done othersDone ⟨rest, rfl⟩ ⟨othersRest, rfl⟩ hdone
    have hrun := (hstart.run hops.of_append).2
    have hothersRun := (hstart.run hothers.of_append).2
    rw [hdone] at hrun
    exact ⟨hrun.now_eq.symm.trans hothersRun.now_eq, hrun.directory_eq.symm.trans hothersRun.directory_eq⟩

/-- Ten nodes of the shorter family, a report, a clearing and another node, with nothing else and with the same ids, reports and questions
in the longer family in between: the directories of the shorter family are the same after nine offers and at the end, and those of the longer
are not. -/
theorem run_noninterference_of_mixed :
    let config : Config := { ownId := Key.lowest, acceptAll := false, maxNodes := 20, closestCount := 16 }
    let short (k : Nat) := Operation.insert ⟨Key.ofNat (k * 2 ^ 156), .v4 (Octets.lowest 4) 0⟩ .good 0
    let long (k : Nat) := Operation.insert ⟨Key.ofNat (k * 2 ^ 156), .v6 (Octets.lowest 16) 0 0 0⟩ .unknown 3
    let report (status : Status) (family : Family) := Operation.update (Key.ofNat (8 * 2 ^ 156)) status family
    let ops := (List.range 9).map short ++
      [.advance 5, report .unknown .v4, short 12, .clear, .advance 7, short 6, .buckets .v4]
    let others := (List.range 9).flatMap (fun k => [long (15 - k), short k]) ++
      [.advance 5, report .unknown .v4, report .good .v6, short 12, .find Key.lowest .v6, .clear, long 1, .advance 7, short 6,
        .tally .v6, .buckets .v4]
    let start := Session.start config
    ops.filter (·.concerns .v4) = others.filter (·.concerns .v4) ∧ start.NeverFull .v4 ops ∧ start.NeverFull .v4 others ∧
      (start.run (ops.take 9)).table.directory .v4 = (start.run (others.take 18)).table.directory .v4 ∧
      (start.run ops).table.directory .v4 = (start.run others).table.directory .v4 ∧
      (start.run ops).table.directory .v6 ≠ (start.run others).table.directory .v6 := by
  intro config short long report ops others start
  have hsame : ops.filter (·.concerns .v4) = others.filter (·.concerns .v4) := by decide +kernel
  have hops : start.NeverFull .v4 ops := by decide +kernel
  have hothers : start.NeverFull .v4 others := by decide +kernel
  have hpoint := (run_noninterference config .v4 hsame hops hothers).2
  refine ⟨hsame, hops, hothers, ?_, ?_, by decide +kernel⟩
  · exact (hpoint _ _ (List.take_prefix 9 ops) (List.take_prefix 18 others) (by decide +kernel)).2
  · exact (hpoint ops others List.prefix_rfl List.prefix_rfl hsame).2

/-- The limit does tell: an offer to the longer family stops one to the shorter. -/
example :
    let start := Session.start { ownId := Key.lowest, acceptAll := false, maxNodes := 1, closestCount := 16 }
    let short := Operation.insert ⟨Key.lowest, .v4 (Octets.lowest 4) 0⟩ .good 0
    let long := Operation.insert ⟨Key.lowest, .v6 (Octets.lowest 16) 0 0 0⟩ .good 0
    (start.step short).answer = .outcome .added ∧ ((start.run [long]).step short).answer = .outcome .tableFull := by
  decide +kernel

end Kademlia
