import Kademlia.Proofs.PrefixClass
import Kademlia.Proofs.Run
import Mathlib.Data.List.Perm.Basic

/-!
# The flat table

The textbook form of a Kademlia table has no buckets that split: for each family and each number of leading bits that an id may
share with our own one there is one row, of at most eight nodes. A node goes into the row of its id or, if that is full, nowhere.

A table that does not welcome every id cannot be told from the flat one (`Table.Refines`): whatever a session asks of both, every
offer gets the same outcome and they hold the same nodes. The rows of the flat table are read off the node list of the other; the
buckets do not show, since a descent ends as the peers of the id say (`Directory.insert_outcome`).
-/

namespace Kademlia

/-! ## Rows -/

/-- At most as many nodes as a bucket has room for. -/
structure Row where
  nodes : List Node
  length_le : nodes.length ≤ Bucket.capacity

namespace Row

/-- No nodes. -/
def empty : Row := ⟨[], Nat.zero_le _⟩

/-- The row with one node more, if there is room. -/
def push? (row : Row) (node : Node) : Option Row :=
  if h : row.nodes.length < Bucket.capacity then some ⟨node :: row.nodes, h⟩ else none

/-- The row after a report about an id, which need not be there. -/
def report (row : Row) (id : Key) (status : Status) (now : Int) : Row :=
  ⟨row.nodes.map fun n => if n.id = id then n.report status now else n, by rw [List.length_map]; exact row.length_le⟩

/-- A row that takes a node had room for it, and has it in front. -/
theorem push?_eq_some {row longer : Row} {node : Node} (h : row.push? node = some longer) :
    row.nodes.length < Bucket.capacity ∧ longer.nodes = node :: row.nodes := by
  unfold push? at h
  split at h
  · rename_i hroom
    obtain rfl := Option.some.inj h
    exact ⟨hroom, rfl⟩
  · cases h

/-- A row that takes no node is full. -/
theorem push?_eq_none {row : Row} {node : Node} (h : row.push? node = none) : row.nodes.length = Bucket.capacity := by
  unfold push? at h
  split at h
  · cases h
  · rename_i hroom
    exact Nat.le_antisymm row.length_le (Nat.le_of_not_lt hroom)

end Row

/-! ## Flat tables -/

/-- A row for each family and each number of leading bits shared with our own id, and one limit on the nodes of all rows. -/
structure FlatTable where
  ownId : Key
  maxNodes : Nat
  rows : Family → Nat → Row

namespace FlatTable

/-- Empty rows. -/
def empty (ownId : Key) (maxNodes : Nat) : FlatTable := ⟨ownId, maxNodes, fun _ _ => .empty⟩

/-- The nodes of a family, row by row; a key has no more bits to share than it has bits. -/
def nodes (t : FlatTable) (family : Family) : List Node :=
  (List.range (Key.bits + 1)).flatMap fun shared => (t.rows family shared).nodes

/-- The number of nodes of both families. -/
def size (t : FlatTable) : Nat := (t.nodes .v4).length + (t.nodes .v6).length

/-- The table with another row. -/
def setRow (t : FlatTable) (family : Family) (shared : Nat) (row : Row) : FlatTable :=
  { t with rows := fun f s => if f = family ∧ s = shared then row else t.rows f s }

/-- Offers a node: the limit comes first, then whether the id is known, then whether its row has room. -/
def insert (t : FlatTable) (node : Node) : Outcome × FlatTable :=
  let shared := t.ownId.shared node.id
  if t.maxNodes ≤ t.size then (.tableFull, t)
  else if ∃ n ∈ t.nodes node.family, n.id = node.id then (.alreadyPresent, t)
  else
    match (t.rows node.family shared).push? node with
    | some row => (.added, t.setRow node.family shared row)
    | none => (.bucketFull, t)

/-- Records a report about an id of a family. -/
def report (t : FlatTable) (id : Key) (status : Status) (family : Family) (now : Int) : FlatTable :=
  { t with rows := fun f s => if f = family then (t.rows f s).report id status now else t.rows f s }

end FlatTable

/-- A flat table and the time. -/
structure FlatSession where
  now : Int
  table : FlatTable

namespace FlatSession

/-- The start of a session at time zero. -/
def start (ownId : Key) (maxNodes : Nat) : FlatSession := ⟨0, .empty ownId maxNodes⟩

/-- Does one operation, and says the outcome of an offer. What only asks changes nothing. -/
def step (s : FlatSession) : Operation → Option Outcome × FlatSession
  | .advance ms => (none, { s with now := s.now + ms })
  | .insert contact status age =>
    let (outcome, table) := s.table.insert ⟨contact, status, s.now - age⟩
    (some outcome, { s with table })
  | .update id status family => (none, { s with table := s.table.report id status family s.now })
  | .clear => (none, { s with table := .empty s.table.ownId s.table.maxNodes })
  | .find .. | .closest .. | .tally .. | .nodes .. | .buckets .. => (none, s)

/-- Does operations one after the other. -/
def run : FlatSession → List Operation → FlatSession
  | s, [] => s
  | s, op :: ops => (s.step op).2.run ops

/-- The outcomes of a run, one for each operation that is an offer. -/
def outcomes : FlatSession → List Operation → List (Option Outcome)
  | _, [] => []
  | s, op :: ops => (s.step op).1 :: (s.step op).2.outcomes ops

end FlatSession

/-- The outcome of an offer that an answer tells. -/
def Answer.outcome? : Answer → Option Outcome
  | .outcome o => some o
  | _ => none

/-! ## Rows of a node list -/

/-- The nodes that share so many leading bits with our own id. -/
def rowOf (own : Key) (nodes : List Node) (shared : Nat) : List Node := nodes.filter fun n => own.shared n.id = shared

/-- A row is as long as there are peers of any key that belongs to it. -/
theorem length_rowOf (own : Key) (nodes : List Node) (key : Key) :
    (rowOf own nodes (own.shared key)).length = peers own nodes key := List.countP_eq_length_filter.symm

theorem rowOf_cons_of_eq {own : Key} {node : Node} {shared : Nat} (h : own.shared node.id = shared) (nodes : List Node) :
    rowOf own (node :: nodes) shared = node :: rowOf own nodes shared :=
  List.filter_cons_of_pos (decide_eq_true h)

theorem rowOf_cons_of_ne {own : Key} {node : Node} {shared : Nat} (h : own.shared node.id ≠ shared) (nodes : List Node) :
    rowOf own (node :: nodes) shared = rowOf own nodes shared :=
  List.filter_cons_of_neg fun hc => h (of_decide_eq_true hc)

/-- The first rows of a list hold its nodes that share few bits. -/
theorem flatMap_rowOf_perm (own : Key) (nodes : List Node) (count : Nat) :
    ((List.range count).flatMap (rowOf own nodes)).Perm (nodes.filter fun n => own.shared n.id < count) := by
  induction count with
  | zero => simp
  | succ count ih =>
    rw [List.range_succ, List.flatMap_append, List.flatMap_singleton]
    refine (ih.append_right _).trans ?_
    have hsplit := List.filter_append_perm (fun n : Node => own.shared n.id < count)
      (nodes.filter fun n => own.shared n.id < count + 1)
    rw [List.filter_filter, List.filter_filter] at hsplit
    have hfew : nodes.filter (fun n => own.shared n.id < count) =
        nodes.filter (fun n => decide (own.shared n.id < count) && decide (own.shared n.id < count + 1)) := by
      refine List.filter_congr ?_
      intro n _
      rw [Bool.eq_iff_iff, Bool.and_eq_true, decide_eq_true_eq, decide_eq_true_eq]
      omega
    have hlast : rowOf own nodes count =
        nodes.filter (fun n => !decide (own.shared n.id < count) && decide (own.shared n.id < count + 1)) := by
      refine List.filter_congr ?_
      intro n _
      rw [Bool.eq_iff_iff, Bool.and_eq_true, Bool.not_eq_true', decide_eq_false_iff_not, decide_eq_true_eq, decide_eq_true_eq]
      omega
    rw [hfew, hlast]
    exact hsplit

/-- All rows of a list hold all its nodes. -/
theorem flatMap_rowOf_bits_perm (own : Key) (nodes : List Node) :
    ((List.range (Key.bits + 1)).flatMap (rowOf own nodes)).Perm nodes := by
  have hall : nodes.filter (fun n => own.shared n.id < Key.bits + 1) = nodes :=
    List.filter_eq_self.2 fun n _ => decide_eq_true (Nat.lt_succ_of_le (Key.shared_le own n.id))
  have hperm := flatMap_rowOf_perm own nodes (Key.bits + 1)
  rwa [hall] at hperm

/-! ## Refinement -/

/-- A directory with classed buckets whose nodes are those of the rows, each row those that share so many bits with our own id. -/
structure Directory.Flat {family : Family} (own : Key) (d : Directory family) (rows : Nat → Row) : Prop where
  sound : d.Sound
  classed : d.Classed own
  rows_perm : ∀ shared, (rows shared).nodes.Perm (rowOf own d.nodes.items shared)

namespace Directory

variable {family : Family} {own : Key} {d : Directory family} {rows : Nat → Row}

/-- An empty directory has empty rows. -/
theorem flat_empty (own : Key) (now : Int) : (empty now : Directory family).Flat own fun _ => .empty where
  sound := sound_empty now
  classed := classed_empty own now
  rows_perm _ := List.Perm.refl _

/-- The nodes of a row are the peers of each key that belongs to it. -/
theorem Flat.length_rows (h : d.Flat own rows) (key : Key) :
    (rows (own.shared key)).nodes.length = peers own d.nodes.items key :=
  (h.rows_perm _).length_eq.trans (length_rowOf own _ key)

section Insert

variable (now : Int) {rule : SplitRule} {node : Node} (h : d.Flat rule.ownId rows) (hlazy : rule.acceptAll = false)
  (hfamily : node.family = family) (hnew : ¬d.nodes.Holds node.id)
include h hlazy hfamily hnew

/-- A new node is refused if the row of its id is full. -/
theorem Flat.insert_of_full (hrow : (rows (rule.ownId.shared node.id)).push? node = none) :
    (d.insert now rule node).outcome = .bucketFull ∧ (d.insert now rule node).state.Flat rule.ownId rows := by
  have hpeers := (h.length_rows node.id).symm.trans (Row.push?_eq_none hrow)
  have houtcome : (d.insert now rule node).outcome = .bucketFull := by
    rw [insert_outcome h.sound h.classed hlazy, if_neg hnew, if_pos hpeers]
  refine ⟨houtcome, h.sound.insert hfamily, h.classed.insert h.sound hlazy, ?_⟩
  rw [h.sound.nodes_insert, houtcome]
  exact h.rows_perm

/-- A new node goes into the row of its id if there is room. -/
theorem Flat.insert_of_room {row : Row} (hrow : (rows (rule.ownId.shared node.id)).push? node = some row) :
    (d.insert now rule node).outcome = .added ∧ (d.insert now rule node).state.Flat rule.ownId fun shared =>
      if shared = rule.ownId.shared node.id then row else rows shared := by
  obtain ⟨hroom, hnodes⟩ := Row.push?_eq_some hrow
  rw [h.length_rows] at hroom
  have houtcome : (d.insert now rule node).outcome = .added := by
    rw [insert_outcome h.sound h.classed hlazy, if_neg hnew, if_neg (Nat.ne_of_lt hroom)]
  refine ⟨houtcome, h.sound.insert hfamily, h.classed.insert h.sound hlazy, fun shared => ?_⟩
  have hperm : (rowOf rule.ownId (d.insert now rule node).state.nodes.items shared).Perm
      (rowOf rule.ownId (node :: d.nodes.items) shared) := by
    rw [h.sound.nodes_insert, houtcome]
    exact (NodeList.add_perm h.sound.ascending hnew).filter _
  refine List.Perm.trans ?_ hperm.symm
  by_cases hshared : shared = rule.ownId.shared node.id
  · rw [if_pos hshared, hnodes, rowOf_cons_of_eq hshared.symm, ← hshared]
    exact (h.rows_perm shared).cons node
  · rw [if_neg hshared, rowOf_cons_of_ne (Ne.symm hshared)]
    exact h.rows_perm shared

end Insert

/-- A report about a known node changes the one node in its row. -/
theorem Flat.update {id : Key} {status : Status} {now : Int} {d' : Directory family} (h : d.Flat own rows)
    (hd' : d.update? id status now = some d') : d'.Flat own fun shared => (rows shared).report id status now := by
  have hsound := h.sound.update hd'
  rw [update?_eq h.sound] at hd'
  split at hd'
  · obtain rfl := Option.some.inj hd'
    refine ⟨hsound, h.classed, fun shared => ?_⟩
    rw [rowOf, List.filter_map]
    refine ((h.rows_perm shared).map _).trans (List.Perm.of_eq (congrArg _ (List.filter_congr fun n _ => ?_)))
    simp only [Function.comp_apply]
    split <;> rfl
  · cases hd'

/-- A report about an unknown id changes no row. -/
theorem Flat.update_none {id : Key} {status : Status} {now : Int} (h : d.Flat own rows)
    (hd : d.update? id status now = none) : d.Flat own fun shared => (rows shared).report id status now := by
  rw [update?_eq h.sound] at hd
  split at hd
  · cases hd
  · rename_i hid
    refine ⟨h.sound, h.classed, fun shared => ?_⟩
    have hkeep : (rows shared).nodes.map (fun n => if n.id = id then n.report status now else n) = (rows shared).nodes := by
      refine (List.map_congr_left fun n hn => if_neg fun heq => hid ?_).trans (List.map_id _)
      exact ⟨n, (List.mem_filter.1 ((h.rows_perm shared).mem_iff.1 hn)).1, heq⟩
    rw [Row.report]
    simp only [hkeep]
    exact h.rows_perm shared

end Directory

/-- A table that does not welcome every id, and a flat table of the same set-up with the same nodes in each row. -/
structure Table.Refines (t : Table) (flat : FlatTable) : Prop where
  lazily : t.config.acceptAll = false
  ownId : flat.ownId = t.config.ownId
  maxNodes : flat.maxNodes = t.config.maxNodes
  directory : ∀ family, (t.directory family).Flat t.config.ownId (flat.rows family)

namespace Table

variable {t : Table} {flat : FlatTable}

/-- A table without nodes refines a flat one without nodes. -/
theorem refines_empty {config : Config} (hlazy : config.acceptAll = false) (now : Int) :
    (empty config now).Refines (.empty config.ownId config.maxNodes) where
  lazily := hlazy
  ownId := rfl
  maxNodes := rfl
  directory family := by
    rw [directory_empty]
    exact Directory.flat_empty config.ownId now

/-- Both hold the same nodes. -/
theorem Refines.nodes_perm (h : t.Refines flat) (family : Family) : (t.nodes family).Perm (flat.nodes family) := by
  have hrows : (flat.nodes family).Perm ((List.range (Key.bits + 1)).flatMap (rowOf t.config.ownId (t.nodes family))) :=
    List.Perm.flatMap_left _ fun shared _ => (h.directory family).rows_perm shared
  exact (hrows.trans (flatMap_rowOf_bits_perm _ _)).symm

/-- Both tables have the same number of nodes. -/
theorem Refines.size_eq (h : t.Refines flat) : flat.size = t.size := by
  rw [FlatTable.size, ← (h.nodes_perm .v4).length_eq, ← (h.nodes_perm .v6).length_eq]
  rfl

/-- Both tables know the same ids. -/
theorem Refines.holds_iff (h : t.Refines flat) (family : Family) (id : Key) :
    (t.directory family).nodes.Holds id ↔ ∃ n ∈ flat.nodes family, n.id = id := by
  refine exists_congr fun n => and_congr_left fun _ => ?_
  exact (h.nodes_perm family).mem_iff

/-- Changing a directory and the rows of its family alike. -/
theorem Refines.setDirectory {family : Family} {d : Directory family} {rows : Family → Nat → Row} (h : t.Refines flat)
    (hd : d.Flat t.config.ownId (rows family)) (hother : ∀ other, other ≠ family → rows other = flat.rows other) :
    (t.setDirectory family d).Refines { flat with rows } where
  lazily := by rw [config_setDirectory]; exact h.lazily
  ownId := by rw [config_setDirectory]; exact h.ownId
  maxNodes := by rw [config_setDirectory]; exact h.maxNodes
  directory other := by
    rw [config_setDirectory]
    by_cases hfamily : other = family
    · subst hfamily
      rw [directory_setDirectory_self]
      exact hd
    · rw [directory_setDirectory_of_ne t d hfamily]
      show Directory.Flat t.config.ownId (t.directory other) (rows other)
      rw [hother other hfamily]
      exact h.directory other

/-- An offer has the same outcome for both. -/
theorem Refines.insert (h : t.Refines flat) (now : Int) (node : Node) :
    (t.insert now node).outcome = (flat.insert node).1 ∧ (t.insert now node).state.Refines (flat.insert node).2 := by
  have hflat := h.directory node.family
  unfold FlatTable.insert
  rw [h.size_eq, h.maxNodes, h.ownId]
  by_cases hfull : t.config.maxNodes ≤ t.size
  · rw [insert_of_full hfull, if_pos hfull]
    exact ⟨rfl, h⟩
  rw [insert_of_room (Nat.lt_of_not_le hfull), if_neg hfull]
  by_cases hid : (t.directory node.family).nodes.Holds node.id
  · rw [if_pos ((h.holds_iff _ _).1 hid), Directory.insert_of_holds hflat.sound.ascending hflat.sound.tiles hid]
    exact ⟨rfl, h.setDirectory hflat fun _ _ => rfl⟩
  rw [if_neg (mt (h.holds_iff _ _).2 hid)]
  cases hrow : (flat.rows node.family (t.config.ownId.shared node.id)).push? node with
  | none =>
    obtain ⟨houtcome, hstate⟩ := hflat.insert_of_full now h.lazily rfl hid hrow
    exact ⟨houtcome, h.setDirectory hstate fun _ _ => rfl⟩
  | some row =>
    obtain ⟨houtcome, hstate⟩ := hflat.insert_of_room now h.lazily rfl hid hrow
    refine ⟨houtcome, h.setDirectory ?_ ?_⟩
    · simpa using hstate
    · intro other hother
      simp [hother]

/-- A report about an id makes the same change to both. -/
theorem Refines.report (h : t.Refines flat) (id : Key) (status : Status) (family : Family) (now : Int) :
    ((t.update? id status family now).getD t).Refines (flat.report id status family now) := by
  have hother : ∀ other, other ≠ family → (flat.report id status family now).rows other = flat.rows other := by
    intro other hother
    simp [FlatTable.report, hother]
  have hself : (flat.report id status family now).rows family = fun shared => (flat.rows family shared).report id status now := by
    simp [FlatTable.report]
  unfold Table.update?
  cases hd : (t.directory family).update? id status now with
  | none =>
    have hflat := (h.directory family).update_none hd
    rw [← hself] at hflat
    have hset := h.setDirectory hflat hother
    rwa [setDirectory_directory] at hset
  | some d =>
    have hflat := (h.directory family).update hd
    rw [← hself] at hflat
    exact h.setDirectory hflat hother

end Table

/-! ## Runs -/

namespace Session

/-- A session and a flat one at the same time, whose tables hold the same nodes. -/
def Refines (s : Session) (flat : FlatSession) : Prop := flat.now = s.now ∧ s.table.Refines flat.table

variable {s : Session} {flat : FlatSession}

/-- Every operation has the same outcome for both. -/
theorem Refines.step (h : s.Refines flat) (op : Operation) :
    (s.step op).answer.outcome? = (flat.step op).1 ∧ (s.step op).session.Refines (flat.step op).2 := by
  obtain ⟨now, table⟩ := flat
  obtain ⟨rfl, htable⟩ := h
  cases op with
  | advance ms => exact ⟨rfl, rfl, htable⟩
  | insert contact status age =>
    obtain ⟨houtcome, hstate⟩ := htable.insert s.now ⟨contact, status, s.now - age⟩
    exact ⟨congrArg some houtcome, rfl, hstate⟩
  | update id status family =>
    have hreport := htable.report id status family s.now
    simp only [Session.step]
    cases hupdate : s.table.update? id status family s.now with
    | none =>
      rw [hupdate] at hreport
      exact ⟨rfl, rfl, hreport⟩
    | some t =>
      rw [hupdate] at hreport
      exact ⟨rfl, rfl, hreport⟩
  | clear =>
    have hempty := Table.refines_empty htable.lazily s.now
    rw [← htable.ownId, ← htable.maxNodes] at hempty
    exact ⟨rfl, rfl, hempty⟩
  | find | closest | tally | nodes | buckets => exact ⟨rfl, rfl, htable⟩

/-- Every run has the same outcomes for both, and leaves them with the same nodes. -/
theorem Refines.run (h : s.Refines flat) (ops : List Operation) :
    (s.replies ops).map (·.answer.outcome?) = flat.outcomes ops ∧ (s.run ops).Refines (flat.run ops) := by
  induction ops generalizing s flat with
  | nil => exact ⟨rfl, h⟩
  | cons op ops ih =>
    obtain ⟨houtcome, hstep⟩ := h.step op
    obtain ⟨houtcomes, hrun⟩ := ih hstep
    refine ⟨?_, hrun⟩
    rw [replies, List.map_cons, houtcome, houtcomes]
    rfl

/-- A session starts as the flat one does. -/
theorem refines_start {config : Config} (hlazy : config.acceptAll = false) :
    (start config).Refines (.start config.ownId config.maxNodes) :=
  ⟨rfl, Table.refines_empty hlazy 0⟩

end Session

/-- A table that does not welcome every id cannot be told from the flat table by the outcomes of its offers and the nodes it holds:
whatever a session asks, they are the same. -/
theorem run_eq_flat (ownId : Key) (maxNodes closestCount : Nat) (ops : List Operation) :
    let start := Session.start { ownId, acceptAll := false, maxNodes, closestCount }
    let flat := FlatSession.start ownId maxNodes
    (start.replies ops).map (·.answer.outcome?) = flat.outcomes ops ∧
      ∀ family, ((start.run ops).table.nodes family).Perm ((flat.run ops).table.nodes family) := by
  intro start flat
  have hstart : start.Refines flat := Session.refines_start rfl
  obtain ⟨houtcomes, hrun⟩ := hstart.run ops
  exact ⟨houtcomes, fun family => hrun.2.nodes_perm family⟩

end Kademlia
