import Kademlia.Session
import Kademlia.Proofs.Soundness

/-!
# What a run keeps

An operation of a session reaches the directory of a family in three ways only: it offers a node of the family, it records a report
(`Session.step_directory_of_ne_clear`), or it clears the table (`Session.directory_step_clear`). So what an empty directory satisfies
and these three keep holds of the directories of every session, after any operations (`Session.run_directory`). With the invariant of
a directory it follows that nodes and buckets of each family agree after every run.
-/

namespace Kademlia

namespace Table

/-! ## Directories of a table -/

@[simp] theorem directory_setDirectory_self (t : Table) (family : Family) (d : Directory family) :
    (t.setDirectory family d).directory family = d := by
  cases family <;> rfl

/-- The directory of another family stays. -/
theorem directory_setDirectory_of_ne (t : Table) {family other : Family} (d : Directory family) (h : other ≠ family) :
    (t.setDirectory family d).directory other = t.directory other := by
  cases family <;> cases other
  · exact absurd rfl h
  · rfl
  · rfl
  · exact absurd rfl h

/-- To put in the directory that is there changes nothing. -/
theorem setDirectory_directory (t : Table) (family : Family) : t.setDirectory family (t.directory family) = t := by
  cases family <;> rfl

@[simp] theorem config_setDirectory (t : Table) (family : Family) (d : Directory family) :
    (t.setDirectory family d).config = t.config := by
  cases family <;> rfl

theorem directory_empty (config : Config) (now : Int) (family : Family) :
    (empty config now).directory family = Directory.empty now := by
  cases family <;> rfl

/-- A full table refuses every node. -/
theorem insert_of_full {t : Table} (h : t.config.maxNodes ≤ t.size) (now : Int) (node : Node) :
    t.insert now node = ⟨.tableFull, t, [.tableFull node.id]⟩ := by
  unfold insert
  rw [if_pos h]

/-- A table that is not full offers the node to the directory of its family. -/
theorem insert_of_room {t : Table} (h : t.size < t.config.maxNodes) (now : Int) (node : Node) :
    t.insert now node =
      { (t.directory node.family).insert now t.config.toSplitRule node with
        state := t.setDirectory node.family ((t.directory node.family).insert now t.config.toSplitRule node).state } := by
  unfold insert
  rw [if_neg (by omega)]

/-- An offer does not change the set-up. -/
theorem config_insert (t : Table) (now : Int) (node : Node) : (t.insert now node).state.config = t.config := by
  rcases Nat.lt_or_ge t.size t.config.maxNodes with h | h
  · rw [insert_of_room h, config_setDirectory]
  · rw [insert_of_full h]

end Table

namespace Session

/-! ## Steps -/

/-- The set-up never changes. -/
theorem config_step (s : Session) (op : Operation) : (s.step op).session.table.config = s.table.config := by
  cases op with
  | insert contact status age => exact Table.config_insert _ _ _
  | update id status family =>
    simp only [step, Table.update?]
    cases (s.table.directory family).update? id status s.now with
    | none => rfl
    | some d => exact Table.config_setDirectory _ _ _
  | advance | clear | find | closest | tally | nodes | buckets => rfl

/-- What an operation other than a clearing does to the directory of a family: nothing, or it offers a node of the family, which the
limit on the nodes of both families lets through, or it records a report. -/
theorem step_directory_of_ne_clear (s : Session) {op : Operation} (hop : op ≠ .clear) (family : Family) :
    (s.step op).session.table.directory family = s.table.directory family ∨
    (∃ contact status age, op = .insert contact status age ∧ contact.family = family ∧
      s.table.size < s.table.config.maxNodes ∧ (s.step op).session.table.directory family =
        ((s.table.directory family).insert s.now s.table.config.toSplitRule ⟨contact, status, s.now - age⟩).state) ∨
    ∃ id status, op = .update id status family ∧ (s.table.directory family).update? id status s.now =
      some ((s.step op).session.table.directory family) := by
  cases op with
  | insert contact status age =>
    simp only [step]
    rcases Nat.lt_or_ge s.table.size s.table.config.maxNodes with h | h
    · rw [Table.insert_of_room h]
      by_cases hfamily : family = contact.family
      · subst hfamily
        exact Or.inr (Or.inl ⟨contact, status, age, rfl, rfl, h, Table.directory_setDirectory_self _ _ _⟩)
      · exact Or.inl (Table.directory_setDirectory_of_ne _ _ hfamily)
    · rw [Table.insert_of_full h]
      exact Or.inl rfl
  | update id status other =>
    simp only [step, Table.update?]
    cases hd : (s.table.directory other).update? id status s.now with
    | none => exact Or.inl rfl
    | some d =>
      simp only [Option.map_some]
      by_cases hfamily : family = other
      · subst hfamily
        rw [Table.directory_setDirectory_self]
        exact Or.inr (Or.inr ⟨id, status, rfl, hd⟩)
      · exact Or.inl (Table.directory_setDirectory_of_ne _ _ hfamily)
  | clear => exact absurd rfl hop
  | advance | find | closest | tally | nodes | buckets => exact Or.inl rfl

/-- A clearing empties the directory of each family. -/
theorem directory_step_clear (s : Session) (family : Family) :
    (s.step .clear).session.table.directory family = .empty s.now := by
  show (s.table.clear s.now).1.directory family = .empty s.now
  rw [Table.clear_eq, Table.directory_empty]

/-! ## Runs -/

/-- What the start satisfies and every step keeps holds after every run. -/
theorem run_induction {P : Session → Prop} {s : Session} (hstart : P s) (hstep : ∀ s op, P s → P (s.step op).session)
    (ops : List Operation) : P (s.run ops) := by
  induction ops generalizing s with
  | nil => exact hstart
  | cons op ops ih => exact ih (hstep s op hstart)

/-- No run changes the set-up. -/
theorem config_run (config : Config) (ops : List Operation) : ((start config).run ops).table.config = config :=
  run_induction (P := fun s => s.table.config = config) rfl (fun s op h => (config_step s op).trans h) ops

/-- What an empty directory satisfies and offers and reports keep holds of the directories after every run. -/
theorem run_directory {family : Family} {P : Directory family → Prop} (config : Config) (hempty : ∀ now, P (.empty now))
    (hinsert : ∀ d now node, node.family = family → P d → P (d.insert now config.toSplitRule node).state)
    (hupdate : ∀ d d' id status now, P d → d.update? id status now = some d' → P d') (ops : List Operation) :
    P (((start config).run ops).table.directory family) := by
  refine (run_induction (P := fun s => s.table.config = config ∧ P (s.table.directory family)) ⟨rfl, ?_⟩ ?_ ops).2
  · exact (Table.directory_empty config 0 family).symm ▸ hempty 0
  · rintro s op ⟨hconfig, hd⟩
    refine ⟨(config_step s op).trans hconfig, ?_⟩
    by_cases hop : op = .clear
    · subst hop
      rw [directory_step_clear]
      exact hempty _
    rcases step_directory_of_ne_clear s hop family with h | ⟨contact, status, age, -, hfamily, -, h⟩ | ⟨id, status, -, h⟩
    · rw [h]
      exact hd
    · rw [h, hconfig]
      exact hinsert _ _ ⟨contact, status, s.now - age⟩ hfamily hd
    · exact hupdate _ _ id status _ hd h

/-- The directories of every session are sound. -/
theorem run_sound (config : Config) (ops : List Operation) (family : Family) :
    (((start config).run ops).table.directory family).Sound :=
  run_directory config (fun now => Directory.sound_empty now) (fun _ _ _ hfamily hd => hd.insert hfamily)
    (fun _ _ _ _ _ hd h => hd.update h) ops

end Session

/-! ## Nodes and buckets agree -/

/-- The nodes and the buckets of a family agree: the nodes ascend and are of the family, the buckets divide the key space among
them, and each bucket counts exactly the nodes between its ends, which are at most eight. -/
structure Directory.Consistent {family : Family} (d : Directory family) : Prop where
  ascending : d.nodes.items.Pairwise fun a b => a.id < b.id
  ofFamily : ∀ n ∈ d.nodes.items, n.family = family
  partition : Partition d.buckets.items
  counted : ∀ b ∈ d.buckets.items, b.count = d.nodes.items.countP fun n => b.min ≤ n.id && n.id ≤ b.max
  bounded : ∀ b ∈ d.buckets.items, b.count ≤ 8

/-- A sound directory is consistent. -/
theorem Directory.Sound.consistent {family : Family} {d : Directory family} (h : d.Sound) : d.Consistent where
  ascending := h.ascending
  ofFamily := h.ofFamily
  partition := partition_of_tiles h.tiles
  counted b hb := by
    obtain ⟨height, hfits⟩ := h.fits b hb
    exact hfits.counted
  bounded b hb := by
    obtain ⟨height, hfits⟩ := h.fits b hb
    exact hfits.bounded

/-- However a table is set up and whatever a session asks of it, the nodes and the buckets of each family agree. -/
theorem run_consistent (config : Config) (ops : List Operation) (family : Family) :
    (((Session.start config).run ops).table.directory family).Consistent :=
  (Session.run_sound config ops family).consistent

end Kademlia
