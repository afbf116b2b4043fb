import Kademlia.Proofs.Descent

/-!
# The invariant of a directory

`Directory.Sound` is what every operation on a directory keeps: the nodes ascend and are of the directory's family, the buckets tile
the key space, and each bucket is a block that counts its nodes and has room for them. The offer of a new node keeps it because a
descent replaces a bucket by buckets of the same keys, each with the right count (`Descent.tiles`, `Descent.fits`).
-/

namespace Kademlia

/-- A bucket that is a block of so many free bits, counts its nodes, and has room for them. -/
structure Bucket.Fits (nodes : List Node) (height : Nat) (b : Bucket) : Prop where
  block : b.IsBlock height
  counted : b.count = b.population nodes
  bounded : b.count ≤ Bucket.capacity

namespace Bucket.Fits

variable {nodes : List Node} {height : Nat} {b lower upper : Bucket} {now : Int}

/-- A full bucket holds as many nodes as there is room for. -/
theorem count_eq (h : b.Fits nodes height) (hfull : b.isFull = true) : b.population nodes = Bucket.capacity := by
  have := Bucket.isFull_iff.1 hfull
  have := h.bounded
  rw [← h.counted]
  omega

theorem count_lt (hfull : b.isFull = false) : b.count < Bucket.capacity := by
  rw [Bool.eq_false_iff, ne_eq, Bucket.isFull_iff] at hfull
  omega

/-- The halves of a bucket fit the nodes if the bucket does. -/
theorem halves (h : b.Fits nodes (height + 1)) (hhalves : b.Halves nodes now lower upper) :
    lower.Fits nodes height ∧ upper.Fits nodes height := by
  obtain ⟨hlower, hupper⟩ := hhalves.isBlock h.block
  have hadd := hhalves.population_add nodes
  have hbound := h.bounded
  rw [h.counted] at hbound
  exact ⟨⟨hlower, hhalves.lower_count, by rw [hhalves.lower_count]; omega⟩,
    ⟨hupper, hhalves.upper_count, by rw [hhalves.upper_count]; omega⟩⟩

/-- Nodes elsewhere do not matter to a bucket. -/
theorem cons_of_not_contains {node : Node} (h : b.Fits nodes height) (hid : b.contains node.id = false) :
    b.Fits (node :: nodes) height := by
  refine ⟨h.block, ?_, h.bounded⟩
  rw [population_cons, hid, h.counted]
  rfl

theorem perm {others : List Node} (h : b.Fits nodes height) (hperm : nodes.Perm others) : b.Fits others height :=
  ⟨h.block, by rw [h.counted, population_perm b hperm], h.bounded⟩

/-- A bucket with room still fits after it has counted one node more. -/
theorem increment {node : Node} (h : b.Fits nodes height) (hid : b.contains node.id = true) (hfull : b.isFull = false) :
    (b.increment now).Fits (node :: nodes) height := by
  have hlt := count_lt hfull
  have hcount : (b.increment now).count = b.count + 1 :=
    Nat.min_eq_left (by rw [show Bucket.capacity = 8 from rfl] at hlt; rw [show countLimit = 18446744073709551615 from rfl]; omega)
  refine ⟨h.block, ?_, by rw [hcount]; exact hlt⟩
  rw [hcount, h.counted, population_cons, show (b.increment now).contains node.id = true from hid]
  rfl

end Bucket.Fits

/-! ## Descents -/

/-- The nodes of a directory after an offer with this outcome, in any order. -/
def offered (nodes : List Node) (node : Node) : Outcome → List Node
  | .added => node :: nodes
  | _ => nodes

/-- An offer leaves the nodes as they are or adds the one that is offered. -/
theorem offered_cases (nodes : List Node) (node : Node) (outcome : Outcome) :
    offered nodes node outcome = nodes ∨ offered nodes node outcome = node :: nodes := by
  cases outcome
  case added => exact Or.inr rfl
  all_goals exact Or.inl rfl

/-- A bucket that does not hold the id fits after the offer as before. -/
theorem Bucket.Fits.offered {nodes : List Node} {height : Nat} {b : Bucket} {node : Node} (h : b.Fits nodes height)
    (hid : b.contains node.id = false) (outcome : Outcome) : b.Fits (offered nodes node outcome) height := by
  rcases offered_cases nodes node outcome with he | he <;> rw [he]
  · exact h
  · exact h.cons_of_not_contains hid

namespace Descent

variable {family : Family} {nodes : List Node} {now : Int} {rule : SplitRule} {b : Bucket} {outcome : Outcome}
  {bs : List Bucket} {events : List Event} {height : Nat}

/-- The buckets that a descent leaves hold the keys of the bucket it started at. -/
theorem tiles {id : Key} (h : Descent family nodes now rule id b outcome bs events) (hb : b.IsBlock height) :
    Tiles b.min.toNat (b.max.toNat + 1) bs := by
  induction h generalizing height with
  | room hfull => exact .singleton hb.min_le_max
  | refused hfull hrule => exact .singleton hb.min_le_max
  | @inLower b lower upper outcome bs events hfull hrule halves hid rest ih =>
    obtain ⟨height, rfl⟩ := hb.exists_height hrule
    have hhalf := halves.tiles hb.min_lt_max
    have hrest := ih (halves.isBlock hb).1
    rw [halves.lower_min, ← hhalf.2.2.1] at hrest
    exact Tiles.append.2 ⟨_, hrest, rfl, hhalf.2.2.2⟩
  | @inUpper b lower upper outcome bs events hfull hrule halves hid rest ih =>
    obtain ⟨height, rfl⟩ := hb.exists_height hrule
    have hhalf := halves.tiles hb.min_lt_max
    have hrest := ih (halves.isBlock hb).2
    rw [halves.upper_max, halves.toNat_upper_min] at hrest
    exact ⟨hhalf.1, hhalf.2.1, hrest⟩

/-- The buckets that a descent leaves fit the nodes after the offer. -/
theorem fits {node : Node} (h : Descent family nodes now rule node.id b outcome bs events) (hb : b.Fits nodes height)
    (hid : b.contains node.id = true) : ∀ c ∈ bs, ∃ free, c.Fits (offered nodes node outcome) free := by
  induction h generalizing height with
  | room hfull =>
    intro c hc
    rw [List.mem_singleton.1 hc]
    exact ⟨height, hb.increment hid hfull⟩
  | refused hfull hrule =>
    intro c hc
    rw [List.mem_singleton.1 hc]
    exact ⟨height, hb⟩
  | @inLower b lower upper outcome bs events hfull hrule halves hin rest ih =>
    obtain ⟨height, rfl⟩ := hb.block.exists_height hrule
    obtain ⟨hlower, hupper⟩ := hb.halves halves
    intro c hc
    rcases List.mem_append.1 hc with hc | hc
    · exact ih hlower hin c hc
    · rw [List.mem_singleton.1 hc]
      exact ⟨height, hupper.offered (halves.not_upper_contains hin) outcome⟩
  | @inUpper b lower upper outcome bs events hfull hrule halves hin rest ih =>
    obtain ⟨height, rfl⟩ := hb.block.exists_height hrule
    obtain ⟨hlower, hupper⟩ := hb.halves halves
    intro c hc
    rcases List.mem_cons.1 hc with rfl | hc
    · exact ⟨height, hlower.offered (halves.not_lower_contains hin) outcome⟩
    · exact ih hupper hin c hc

/-- What a bucket hands down to its halves, and does not lose by counting a node, all buckets have that a descent from it leaves. -/
theorem forall_mem {P : Bucket → Prop} {id : Key} (h : Descent family nodes now rule id b outcome bs events)
    (hb : b.Fits nodes height) (hid : b.contains id = true) (hroom : ∀ c : Bucket, P c → P (c.increment now))
    (hhalf : ∀ {c lower upper : Bucket} {height : Nat}, c.Fits nodes (height + 1) → c.contains id = true → c.isFull = true →
      rule.allows c = true → c.Halves nodes now lower upper → P c → P lower ∧ P upper)
    (hP : P b) : ∀ c ∈ bs, P c := by
  induction h generalizing height with
  | room hfull => exact List.forall_mem_singleton.2 (hroom _ hP)
  | refused hfull hrule => exact List.forall_mem_singleton.2 hP
  | inLower hfull hrule halves hin rest ih =>
    obtain ⟨height, rfl⟩ := hb.block.exists_height hrule
    obtain ⟨hlower, hupper⟩ := hhalf hb hid hfull hrule halves hP
    exact List.forall_mem_append.2 ⟨ih (hb.halves halves).1 hin hlower, List.forall_mem_singleton.2 hupper⟩
  | inUpper hfull hrule halves hin rest ih =>
    obtain ⟨height, rfl⟩ := hb.block.exists_height hrule
    obtain ⟨hlower, hupper⟩ := hhalf hb hid hfull hrule halves hP
    exact List.forall_mem_cons.2 ⟨hlower, ih (hb.halves halves).2 hin hupper⟩

end Descent

namespace Directory

variable {family : Family} {d : Directory family} {now : Int} {rule : SplitRule} {node : Node}

/-! ## Directories -/

/-- What every operation keeps of a directory. -/
structure Sound (d : Directory family) : Prop where
  ascending : Ascending d.nodes.items
  ofFamily : ∀ n ∈ d.nodes.items, n.family = family
  tiles : Tiles 0 keyCount d.buckets.items
  fits : ∀ b ∈ d.buckets.items, ∃ height, b.Fits d.nodes.items height

theorem buckets_empty (now : Int) : (empty now : Directory family).buckets.items = [Bucket.whole now] := rfl

/-- What the bucket of all keys has, all buckets of an empty directory have. -/
theorem forall_buckets_empty {P : Bucket → Prop} (now : Int) (hP : P (Bucket.whole now)) :
    ∀ b ∈ (empty now : Directory family).buckets.items, P b := List.forall_mem_singleton.2 hP

theorem sound_empty (now : Int) : (empty now : Directory family).Sound where
  ascending := .nil
  ofFamily n hn := by cases hn
  tiles := by
    rw [buckets_empty]
    refine ⟨Octets.toNat_lowest, ?_, ?_⟩
    · exact (Bucket.isBlock_whole now).min_le_max
    · exact Octets.toNat_highest.trans keyCount_eq.symm
  fits b hb := by
    rw [buckets_empty, List.mem_singleton] at hb
    subst hb
    exact ⟨Key.bits, Bucket.isBlock_whole now, rfl, Nat.zero_le _⟩

/-- The offer of a new node to a sound directory: the bucket of its id, the descent from there, and the directory afterwards. -/
theorem Sound.exists_descent (hd : d.Sound) (hnew : ¬d.nodes.Holds node.id) (now : Int) (rule : SplitRule) :
    ∃ before b behind height outcome bs events, d.buckets.items = before ++ b :: behind ∧ b.contains node.id = true ∧
      b.Fits d.nodes.items height ∧ Descent family d.nodes.items now rule node.id b outcome bs events ∧
      d.insert now rule node = ⟨outcome, ⟨d.nodesAfter node outcome, ⟨before ++ bs ++ behind⟩⟩, events⟩ := by
  obtain ⟨before, b, behind, hb, hkey⟩ := exists_bucket hd.tiles node.id
  obtain ⟨height, hfits⟩ := hd.fits b (hb ▸ List.mem_append_right before List.mem_cons_self)
  obtain ⟨outcome, bs, events, hdescent, hresult⟩ :=
    insertWithin_eq (height_lt_maxLooks hfits.block) hd.ascending hd.tiles hb hfits.block hkey hnew
  exact ⟨before, b, behind, height, outcome, bs, events, hb, hkey, hfits, hdescent, hresult⟩

/-- After an offer the node list holds the nodes offered. -/
theorem nodesAfter_perm (h : Ascending d.nodes.items) (hnew : ¬d.nodes.Holds node.id) (outcome : Outcome) :
    (d.nodesAfter node outcome).items.Perm (offered d.nodes.items node outcome) := by
  cases outcome
  case added => exact NodeList.add_perm h hnew
  all_goals exact List.Perm.refl _

/-- The nodes stay in order when one with a new id is offered. -/
theorem nodesAfter_ascending (h : Ascending d.nodes.items) (hnew : ¬d.nodes.Holds node.id) (outcome : Outcome) :
    Ascending (d.nodesAfter node outcome).items := by
  cases outcome
  case added => exact NodeList.add_ascending h hnew
  all_goals exact h

/-- The nodes after an offer follow from its outcome. -/
theorem Sound.nodes_insert (hd : d.Sound) (now : Int) (rule : SplitRule) (node : Node) :
    (d.insert now rule node).state.nodes = d.nodesAfter node (d.insert now rule node).outcome := by
  by_cases hid : d.nodes.Holds node.id
  · rw [insert_of_holds hd.ascending hd.tiles hid]
    rfl
  · obtain ⟨before, b, behind, height, outcome, bs, events, -, -, -, -, hresult⟩ := hd.exists_descent hid now rule
    rw [hresult]

/-- An offer that adds its node adds nothing else, and any other leaves the nodes alone. -/
theorem Sound.mem_nodes_insert (hd : d.Sound) (now : Int) (rule : SplitRule) (node : Node) {n : Node} :
    n ∈ (d.insert now rule node).state.nodes.items ↔
      n ∈ d.nodes.items ∨ (d.insert now rule node).outcome = .added ∧ n = node := by
  by_cases hid : d.nodes.Holds node.id
  · rw [insert_of_holds hd.ascending hd.tiles hid]
    simp
  · rw [hd.nodes_insert, (nodesAfter_perm hd.ascending hid _).mem_iff]
    cases (d.insert now rule node).outcome <;> simp [offered, or_comm]

/-- The other buckets of a tiling do not hold a key of this one. -/
theorem not_contains_of_mem_other (htiles : Tiles 0 keyCount d.buckets.items) {before behind : List Bucket} {b c : Bucket}
    {key : Key} (hb : d.buckets.items = before ++ b :: behind) (hkey : b.contains key = true)
    (hc : c ∈ before ∨ c ∈ behind) : c.contains key = false := by
  have hbounds := Bucket.contains_iff.1 hkey
  rw [hb, Tiles.middle] at htiles
  rcases hc with hc | hc
  · exact htiles.1.not_contains_of_lt (Or.inr hbounds.1) hc
  · exact htiles.2.2.not_contains_of_lt (Or.inl (by omega)) hc

/-- Only one bucket of a tiling holds a key. -/
theorem eq_of_contains (htiles : Tiles 0 keyCount d.buckets.items) {before behind : List Bucket} {b c : Bucket} {key : Key}
    (hb : d.buckets.items = before ++ b :: behind) (hkey : b.contains key = true) (hc : c ∈ d.buckets.items)
    (hin : c.contains key = true) : c = b := by
  have hnot : ∀ hother : c ∈ before ∨ c ∈ behind, c = b := by
    intro hother
    rw [not_contains_of_mem_other htiles hb hkey hother] at hin
    cases hin
  rw [hb, List.mem_append, List.mem_cons] at hc
  rcases hc with hc | rfl | hc
  · exact hnot (Or.inl hc)
  · rfl
  · exact hnot (Or.inr hc)

/-- An offer keeps a directory sound. -/
theorem Sound.insert (hd : d.Sound) (hfamily : node.family = family) : (d.insert now rule node).state.Sound := by
  by_cases hid : d.nodes.Holds node.id
  · rw [insert_of_holds hd.ascending hd.tiles hid]
    exact hd
  · obtain ⟨before, b, behind, height, outcome, bs, events, hb, hkey, hfits, hdescent, hresult⟩ :=
      hd.exists_descent hid now rule
    have hperm := nodesAfter_perm hd.ascending hid outcome
    rw [hresult]
    refine ⟨nodesAfter_ascending hd.ascending hid outcome, ?_, ?_, ?_⟩
    · intro n hn
      have hn' := hperm.mem_iff.1 hn
      rcases offered_cases d.nodes.items node outcome with he | he <;> rw [he] at hn'
      · exact hd.ofFamily n hn'
      · rcases List.mem_cons.1 hn' with rfl | hn'
        · exact hfamily
        · exact hd.ofFamily n hn'
    · have htiles := hd.tiles
      rw [hb] at htiles
      exact htiles.replace (hdescent.tiles hfits.block)
    · have hother : ∀ c, c ∈ before ∨ c ∈ behind → ∃ free, c.Fits (d.nodesAfter node outcome).items free := by
        intro c hc
        have hmem : c ∈ d.buckets.items := by
          rw [hb, List.mem_append, List.mem_cons]
          exact hc.imp_right Or.inr
        obtain ⟨free, hfree⟩ := hd.fits c hmem
        have hout := not_contains_of_mem_other hd.tiles hb hkey hc
        exact ⟨free, (hfree.offered hout outcome).perm hperm.symm⟩
      intro c hc
      simp only [List.mem_append] at hc
      rcases hc with (hc | hc) | hc
      · exact hother c (Or.inl hc)
      · obtain ⟨free, hfree⟩ := hdescent.fits hfits hkey c hc
        exact ⟨free, hfree.perm hperm.symm⟩
      · exact hother c (Or.inr hc)

/-- What buckets hand down to their halves, and do not lose by counting a node, they all have after an offer. -/
theorem Sound.forall_buckets_insert {P : Bucket → Prop} (hd : d.Sound) (hroom : ∀ c : Bucket, P c → P (c.increment now))
    (hhalf : ∀ {c lower upper : Bucket} {height : Nat}, ¬d.nodes.Holds node.id → c.Fits d.nodes.items (height + 1) →
      c.contains node.id = true → c.isFull = true → rule.allows c = true → c.Halves d.nodes.items now lower upper → P c →
      P lower ∧ P upper)
    (hP : ∀ b ∈ d.buckets.items, P b) : ∀ b ∈ (d.insert now rule node).state.buckets.items, P b := by
  by_cases hid : d.nodes.Holds node.id
  · rw [insert_of_holds hd.ascending hd.tiles hid]
    exact hP
  · obtain ⟨before, b, behind, height, outcome, bs, events, hb, hkey, hfits, hdescent, hresult⟩ :=
      hd.exists_descent hid now rule
    rw [hb, List.forall_mem_append, List.forall_mem_cons] at hP
    rw [hresult]
    refine List.forall_mem_append.2 ⟨List.forall_mem_append.2 ⟨hP.1, ?_⟩, hP.2.2⟩
    exact hdescent.forall_mem hfits hkey hroom (hhalf hid) hP.2.1

/-- A report changes one node where it stands, and nothing else. -/
theorem update?_eq (hd : d.Sound) (id : Key) (status : Status) (now : Int) :
    d.update? id status now =
      if d.nodes.Holds id then
        some { d with nodes := ⟨d.nodes.items.map fun n => if n.id = id then n.report status now else n⟩ }
      else none := by
  unfold update?
  split
  · rename_i hid
    obtain ⟨node, hnode⟩ := NodeList.updateBy?_of_holds hd.ascending hid fun n => n.report status now
    rw [hnode]
    rfl
  · rename_i hid
    rw [NodeList.updateBy?_of_not_holds hd.ascending hid]
    rfl

/-- A report changes no id. -/
theorem map_id_report (nodes : List Node) (id : Key) (status : Status) (now : Int) :
    (nodes.map fun n => if n.id = id then n.report status now else n).map Node.id = nodes.map Node.id := by
  rw [List.map_map]
  refine List.map_congr_left ?_
  intro n _
  simp only [Function.comp_apply]
  split <;> rfl

/-- A report changes no bucket. -/
theorem Sound.buckets_update (hd : d.Sound) {id : Key} {status : Status} {d' : Directory family}
    (h : d.update? id status now = some d') : d'.buckets = d.buckets := by
  rw [update?_eq hd] at h
  split at h
  · obtain rfl := Option.some.inj h
    rfl
  · cases h

/-- A report about a node keeps a directory sound. -/
theorem Sound.update (hd : d.Sound) {id : Key} {status : Status} {d' : Directory family}
    (h : d.update? id status now = some d') : d'.Sound := by
  rw [update?_eq hd] at h
  split at h
  · obtain rfl := Option.some.inj h
    have hids := map_id_report d.nodes.items id status now
    refine ⟨hd.ascending.of_map_id_eq hids, ?_, hd.tiles, ?_⟩
    · intro n hn
      obtain ⟨m, hm, rfl⟩ := List.mem_map.1 hn
      have hfamily := hd.ofFamily m hm
      split
      · exact hfamily
      · exact hfamily
    · intro b hb
      obtain ⟨height, hfits⟩ := hd.fits b hb
      exact ⟨height, hfits.block, by rw [hfits.counted, b.population_eq_of_map_id hids], hfits.bounded⟩
  · cases h

end Directory

end Kademlia
