import Kademlia.Proofs.Run

/-!
# How a table ages

The status that counts is not written down: it follows from the one that was last reported and from the time since. So a table changes by
being left alone. A node reported good turns questionable when it has been idle for too long, and no other status ever changes
(`Node.statusAt_le`), so the good nodes that a family loses are the questionable nodes that it gains (`run_ages`).
-/

namespace Kademlia

theorem Status.le_iff {a b : Status} : a ≤ b ↔ a.rank ≤ b.rank := Nat.isLE_compare

namespace Node

variable {n : Node} {now earlier later : Int}

/-! ## One node -/

/-- The later a node is read, the longer it has been idle. -/
theorem idle_le (n : Node) (h : earlier ≤ later) : n.idle earlier ≤ n.idle later := by
  unfold idle
  omega

/-- Of all statuses only a good one depends on the time. -/
theorem statusAt_of_ne_good (h : n.status ≠ .good) (now : Int) : n.statusAt now = n.status := if_neg fun hc => h hc.1

/-- A node noted as good reads as good until it has been idle too long. -/
theorem statusAt_of_good (h : n.status = .good) (now : Int) :
    n.statusAt now = if n.idle now < freshFor then .good else .questionable := by
  unfold statusAt
  split
  · rename_i hidle
    rw [if_neg (Int.not_lt.2 hidle.2)]
  · rename_i hidle
    rw [if_pos (Int.not_le.1 fun hge => hidle ⟨h, hge⟩), h]

/-- Only a node noted as good that is fresh reads as good. -/
theorem statusAt_eq_good_iff : n.statusAt now = .good ↔ n.status = .good ∧ n.idle now < freshFor := by
  by_cases h : n.status = .good
  · rw [statusAt_of_good h]
    split <;> simp_all
  · simp [statusAt_of_ne_good h, h]

/-- Age makes no node unknown, and no unknown node known. -/
theorem statusAt_eq_unknown_iff : n.statusAt now = .unknown ↔ n.status = .unknown := by
  by_cases h : n.status = .good
  · rw [statusAt_of_good h, h]
    split <;> simp
  · rw [statusAt_of_ne_good h]

/-- With time a status gets worse, or stays. -/
theorem statusAt_le (n : Node) (h : earlier ≤ later) : n.statusAt later ≤ n.statusAt earlier := by
  rw [Status.le_iff]
  by_cases hgood : n.status = .good
  · have hidle := n.idle_le h
    rw [statusAt_of_good hgood, statusAt_of_good hgood]
    split
    · rw [if_pos (Int.lt_of_le_of_lt hidle ‹_›)]
    · split
      · decide
      · exact Nat.le_refl _
  · rw [statusAt_of_ne_good hgood, statusAt_of_ne_good hgood]

end Node

namespace Directory

variable {family : Family} {earlier later : Int}

/-! ## The nodes of a family -/

/-- A node that counts as good counted as good before. -/
theorem countStatus_good_le (d : Directory family) (h : earlier ≤ later) :
    d.countStatus .good later ≤ d.countStatus .good earlier := by
  refine List.countP_mono_left fun n _ hn => ?_
  obtain ⟨hgood, hidle⟩ := Node.statusAt_eq_good_iff.1 (of_decide_eq_true hn)
  exact decide_eq_true (Node.statusAt_eq_good_iff.2 ⟨hgood, Int.lt_of_le_of_lt (n.idle_le h) hidle⟩)

/-- At any time the good and the questionable nodes are those that were not reported unknown. -/
theorem countStatus_good_add_questionable (d : Directory family) (now : Int) :
    d.countStatus .good now + d.countStatus .questionable now = d.nodes.items.countP fun n => n.status ≠ .unknown := by
  refine (countP_eq_add (fun n => ?_) (fun n => ?_)).symm
  · have hunknown : n.statusAt now = .unknown ↔ n.status = .unknown := Node.statusAt_eq_unknown_iff
    simp only [ne_eq, ← hunknown]
    cases n.statusAt now <;> rfl
  · cases n.statusAt now <;> rfl

end Directory

/-! ## Readings -/

/-- An operation that only asks, or lets time pass. -/
def Operation.IsReading : Operation → Prop
  | .insert .. | .update .. | .clear => False
  | .advance _ | .find .. | .closest .. | .tally _ | .nodes _ | .buckets _ => True

namespace Session

/-- To read, or to let time pass, does not change the table. -/
theorem table_step_of_isReading {op : Operation} (h : op.IsReading) (s : Session) : (s.step op).session.table = s.table := by
  cases op with
  | insert | update | clear => cases h
  | advance | find | closest | tally | nodes | buckets => rfl

/-- However often a table is read, it stays as it is. -/
theorem table_run_of_isReading {readings : List Operation} (h : ∀ op ∈ readings, op.IsReading) (s : Session) :
    (s.run readings).table = s.table := by
  induction readings generalizing s with
  | nil => rfl
  | cons op readings ih =>
    obtain ⟨hop, hreadings⟩ := List.forall_mem_cons.1 h
    rw [run_cons, ih hreadings, table_step_of_isReading hop]

end Session

/-- If a table, whatever was done to it before, is looked at and then only read and let alone until it is looked at again, at no earlier
time, each family has the same nodes as before, none of which has a better status. It has at most as many good nodes as before and at
least as many questionable ones, and both together are at either time the nodes that were not reported unknown. A node that was reported
good is good at just those times at which less than fifteen minutes have passed since the report. None have passed if it lies ahead of the
clock. -/
theorem run_ages (config : Config) (ops readings : List Operation) (hreadings : ∀ op ∈ readings, op.IsReading) (family : Family)
    {earlier later : Int} (h : earlier ≤ later) :
    let first := ((Session.start config).run ops).table
    let second := ((Session.start config).run (ops ++ readings)).table
    let before := first.tally family earlier
    let after := second.tally family later
    second.nodes family = first.nodes family ∧
      (∀ n ∈ first.nodes family, n.statusAt later ≤ n.statusAt earlier) ∧
      after.good ≤ before.good ∧ before.questionable ≤ after.questionable ∧
      before.good + before.questionable = (first.nodes family).countP (fun n => n.status ≠ .unknown) ∧
      after.good + after.questionable = before.good + before.questionable ∧
      ∀ n ∈ first.nodes family, n.status = .good → ∀ now, n.statusAt now = .good ↔ max 0 (now - n.updated) < 15 * 60 * 1000 := by
  intro first second before after
  have hsecond : second = first := by
    rw [show second = _ from congrArg Session.table (Session.run_append _ ops readings)]
    exact Session.table_run_of_isReading hreadings _
  have hbefore := (first.directory family).countStatus_good_add_questionable earlier
  have hafter := (first.directory family).countStatus_good_add_questionable later
  have hgood := (first.directory family).countStatus_good_le h
  rw [show after = first.tally family later by rw [← hsecond]]
  refine ⟨by rw [hsecond], fun n _ => n.statusAt_le h, hgood, ?_, hbefore, hafter.trans hbefore.symm, ?_⟩
  · -- what is lost on the one side of the sum is gained on the other
    show (first.directory family).countStatus .questionable earlier ≤ (first.directory family).countStatus .questionable later
    omega
  · intro n _ hn now
    rw [Node.statusAt_eq_good_iff, and_iff_right hn]
    rfl

/-- A table with one node of each status, and one whose good report is a second ahead of the clock. After fifteen minutes this one is the
only good node, and after a second more there is none. -/
theorem run_ages_of_future_report :
    let config : Config := { ownId := Key.lowest, acceptAll := false, maxNodes := 8, closestCount := 8 }
    let offer (k : Nat) (status : Status) (age : Int) := Operation.insert ⟨Key.ofNat k, .v4 (Octets.lowest 4) 0⟩ status age
    let ops := [offer 1 .good (-1000), offer 2 .good 0, offer 3 .questionable 0, offer 4 .unknown 0]
    let readings : List Operation := [.advance 900000, .tally .v4, .advance 1000]
    let first := ((Session.start config).run ops).table
    let second := ((Session.start config).run (ops ++ readings)).table
    let ahead : Node := ⟨⟨Key.ofNat 1, .v4 (Octets.lowest 4) 0⟩, .good, 1000⟩
    (∀ op ∈ readings, op.IsReading) ∧ (900000 : Int) ≤ 901000 ∧
      (first.tally .v4 900000).good = 1 ∧ (second.tally .v4 901000).good = 0 ∧
      (first.tally .v4 900000).questionable + 1 = (second.tally .v4 901000).questionable ∧
      ahead ∈ first.nodes .v4 ∧ ahead.statusAt (-5000) = .good ∧ ahead.statusAt 900999 = .good ∧ ahead.statusAt 901000 ≠ .good := by
  intro config offer ops readings first second ahead
  have hreadings : ∀ op ∈ readings, op.IsReading := by simp [readings, Operation.IsReading]
  have hle : (900000 : Int) ≤ 901000 := by decide
  have hbefore : (first.tally .v4 900000).good = 1 := by decide +kernel
  have hafter : (second.tally .v4 901000).good = 0 := by decide +kernel
  have hahead : ahead ∈ first.nodes .v4 := by decide +kernel
  obtain ⟨-, -, -, -, -, hsum, hgood⟩ := run_ages config ops readings hreadings .v4 hle
  have hiff := hgood ahead hahead rfl
  have hmoved : (second.tally .v4 901000).good + (second.tally .v4 901000).questionable =
      (first.tally .v4 900000).good + (first.tally .v4 900000).questionable := hsum
  refine ⟨hreadings, hle, hbefore, hafter, ?_, hahead, (hiff _).2 (by decide), (hiff _).2 (by decide), mt (hiff _).1 (by decide)⟩
  omega

end Kademlia
