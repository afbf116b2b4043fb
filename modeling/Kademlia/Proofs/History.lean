import Kademlia.Proofs.Run
import Mathlib.Data.Finset.Dedup
import Mathlib.Data.List.DropRight

/-!
# Histories

A transcript notes of each operation of a run the time at which it was done and what was said. A clearing starts the table afresh, so
what a table has become after a run follows from the entries behind the last clearing alone, its history (`Session.history`). What
the start satisfies with an empty history holds after every run if a clearing establishes it with an empty history again and each
other operation keeps it with the history one entry longer (`Session.run_history`).
-/

namespace Kademlia

/-- An operation, the time at which it was done, and what was said. -/
structure Entry where
  now : Int
  operation : Operation
  answer : Answer
deriving DecidableEq

namespace Entry

/-- The id that an entry offers to a family, if it does and the limit on the nodes of both families did not stop it. -/
def offeredTo? (family : Family) (e : Entry) : Option Key :=
  match e.operation with
  | .insert contact _ _ =>
    if contact.family = family ∧ e.answer ≠ .outcome .tableFull then some contact.id else none
  | _ => none

end Entry

/-- The ids that were offered to a family, apart from those that the limit on the nodes of both families stopped. -/
def offeredIds (family : Family) (entries : List Entry) : Finset Key := (entries.filterMap (Entry.offeredTo? family)).toFinset

/-- An id was offered if an entry offers it. -/
theorem mem_offeredIds {family : Family} {entries : List Entry} {id : Key} :
    id ∈ offeredIds family entries ↔ ∃ e ∈ entries, e.offeredTo? family = some id := by
  rw [offeredIds, List.mem_toFinset, List.mem_filterMap]

/-- An entry more offers one id more, or none. -/
theorem mem_offeredIds_concat {family : Family} {entries : List Entry} {e : Entry} {id : Key} :
    id ∈ offeredIds family (entries ++ [e]) ↔ id ∈ offeredIds family entries ∨ e.offeredTo? family = some id := by
  simp only [mem_offeredIds, List.mem_append, List.mem_singleton, or_and_right, exists_or, exists_eq_left]

/-- The entries since the last clearing. -/
def sinceClear (entries : List Entry) : List Entry := entries.rtakeWhile fun e => e.operation ≠ .clear

/-- Nothing has happened since a clearing that was the last entry. -/
theorem sinceClear_concat_clear {e : Entry} (h : e.operation = .clear) (entries : List Entry) :
    sinceClear (entries ++ [e]) = [] := by
  rw [sinceClear, List.rtakeWhile_concat]
  simp [h]

/-- An entry that is no clearing joins those since the last one. -/
theorem sinceClear_concat {e : Entry} (h : e.operation ≠ .clear) (entries : List Entry) :
    sinceClear (entries ++ [e]) = sinceClear entries ++ [e] := by
  rw [sinceClear, List.rtakeWhile_concat]
  simp [h, sinceClear]

namespace Session

/-! ## Transcripts -/

/-- The entry of one operation. -/
def entry (s : Session) (op : Operation) : Entry := ⟨s.now, op, (s.step op).answer⟩

/-- The entries of a run, one for each operation. -/
def transcript : Session → List Operation → List Entry
  | _, [] => []
  | s, op :: ops => s.entry op :: (s.step op).session.transcript ops

/-- The transcript of a run that goes on is that of its first part, and then that of the second from where the first ends. -/
theorem transcript_append (s : Session) (ops more : List Operation) :
    s.transcript (ops ++ more) = s.transcript ops ++ (s.run ops).transcript more := by
  induction ops generalizing s with
  | nil => rfl
  | cons op ops ih => simp [transcript, ih]

/-- The entries of a run since its last clearing. -/
def history (s : Session) (ops : List Operation) : List Entry := sinceClear (s.transcript ops)

@[simp] theorem history_nil (s : Session) : s.history [] = [] := rfl

/-- The history starts afresh with a clearing. -/
theorem history_concat_clear (s : Session) (ops : List Operation) : s.history (ops ++ [.clear]) = [] := by
  rw [history, transcript_append]
  exact sinceClear_concat_clear rfl _

/-- Each operation that is no clearing adds its entry to the history. -/
theorem history_concat {op : Operation} (h : op ≠ .clear) (s : Session) (ops : List Operation) :
    s.history (ops ++ [op]) = s.history ops ++ [(s.run ops).entry op] := by
  rw [history, transcript_append]
  exact sinceClear_concat h _

/-! ## Runs -/

/-- A session that was set up like this and whose directories are sound. -/
structure Proper (config : Config) (s : Session) : Prop where
  config_eq : s.table.config = config
  sound : ∀ family, (s.table.directory family).Sound

/-- Every run ends in a proper session. -/
theorem proper_run (config : Config) (ops : List Operation) : ((start config).run ops).Proper config :=
  ⟨config_run config ops, run_sound config ops⟩

/-- Each operation leaves a session proper. -/
theorem proper_step {config : Config} {s : Session} (hs : s.Proper config) (op : Operation) :
    (s.step op).session.Proper config := by
  refine ⟨(config_step s op).trans hs.config_eq, fun family => ?_⟩
  by_cases hop : op = .clear
  · subst hop
    rw [directory_step_clear]
    exact Directory.sound_empty _
  · rcases step_directory_of_ne_clear s hop family with h | ⟨contact, status, age, -, hfamily, -, h⟩ | ⟨id, status, -, h⟩
    · rw [h]
      exact hs.sound family
    · rw [h]
      exact (hs.sound family).insert hfamily
    · exact (hs.sound family).update h

/-- What the start satisfies with an empty history, and clearings and the other operations keep, holds after every run. -/
theorem run_history {P : Session → List Entry → Prop} (config : Config) (hstart : P (start config) [])
    (hclear : ∀ s : Session, s.Proper config → P (s.step .clear).session [])
    (hstep : ∀ (s : Session) history op, s.Proper config → op ≠ .clear → P s history →
      P (s.step op).session (history ++ [s.entry op]))
    (ops : List Operation) : P ((start config).run ops) ((start config).history ops) := by
  induction ops using List.reverseRecOn with
  | nil => exact hstart
  | append_singleton ops op ih =>
    rw [run_append]
    have hproper := proper_run config ops
    by_cases hop : op = .clear
    · subst hop
      rw [history_concat_clear]
      exact hclear _ hproper
    · rw [history_concat hop]
      exact hstep _ _ op hproper hop ih

/-! ## Offers -/

/-- The offer of a contact to a table that has reached its limit changes nothing. -/
theorem step_insert_of_full {s : Session} (h : s.table.config.maxNodes ≤ s.table.size) (contact : Contact) (status : Status)
    (age : Int) : s.step (.insert contact status age) = ⟨s, .outcome .tableFull, [.tableFull contact.id]⟩ := by
  simp only [step]
  rw [Table.insert_of_full h]
  rfl

/-- The offer of a contact to a table that has not reached its limit is an offer to the directory of its family. -/
theorem step_insert_of_room {s : Session} (h : s.table.size < s.table.config.maxNodes) (contact : Contact) (status : Status)
    (age : Int) :
    let insertion := (s.table.directory contact.family).insert s.now s.table.config.toSplitRule ⟨contact, status, s.now - age⟩
    s.step (.insert contact status age) =
      ⟨{ s with table := s.table.setDirectory contact.family insertion.state }, .outcome insertion.outcome, insertion.events⟩ := by
  intro insertion
  simp only [step]
  rw [Table.insert_of_room h]
  rfl

end Session

end Kademlia
