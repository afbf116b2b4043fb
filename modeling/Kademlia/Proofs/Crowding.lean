import Kademlia.Proofs.Refusal
import Kademlia.Proofs.PrefixClass
import Mathlib.Data.Finset.Card
import Mathlib.Data.Finset.Insert

/-!
# Ids that crowd the bucket of our own id

If not every id is welcome, the bucket of our own id is split when a ninth id is offered to it, whether this id is stored in the end or
not. So each split leaves a trace in the ids that were offered (`Bucket.Crowded`): more of them than a bucket has room for share the bits
of the keys of the bucket that was split with our own id. Descents keep this (`Descent.crowded`), and therefore directories do, whatever
is offered to them (`Directory.Offered`).
-/

namespace Kademlia

/-! ## Counting ids -/

/-- How many ids share exactly so many leading bits with our own. -/
def sharing (own : Key) (ids : Finset Key) (shared : Nat) : Nat := (ids.filter fun id => own.shared id = shared).card

/-- How many ids share at least so many leading bits with our own. -/
def sharingAtLeast (own : Key) (ids : Finset Key) (shared : Nat) : Nat := (ids.filter fun id => shared ≤ own.shared id).card

/-- Among more ids at least as many share so many bits with our own. -/
theorem sharingAtLeast_mono {own : Key} {ids others : Finset Key} (h : ids ⊆ others) (shared : Nat) :
    sharingAtLeast own ids shared ≤ sharingAtLeast own others shared :=
  Finset.card_le_card (Finset.filter_subset_filter _ h)

section Count

variable {keys : List Key} {ids : Finset Key} {p : Key → Prop} [DecidablePred p]

/-- Keys that are each once in a list are at most as many as a set that holds them has. -/
theorem countP_le_card (hkeys : keys.Nodup) (hmem : ∀ key ∈ keys, key ∈ ids) : keys.countP (p ·) ≤ (ids.filter p).card := by
  rw [List.countP_eq_length_filter, ← List.toFinset_card_of_nodup (hkeys.filter _)]
  refine Finset.card_le_card fun key hkey => ?_
  rw [List.mem_toFinset, List.mem_filter, decide_eq_true_eq] at hkey
  exact Finset.mem_filter.2 ⟨hmem key hkey.1, hkey.2⟩

/-- If no key of a set is missing from a list, the set has no more of them. -/
theorem card_le_countP (hkeys : ∀ id ∈ ids, p id → id ∈ keys) : (ids.filter p).card ≤ keys.countP (p ·) := by
  rw [List.countP_eq_length_filter]
  refine Nat.le_trans (Finset.card_le_card fun id hid => ?_) (List.toFinset_card_le _)
  obtain ⟨hid, hp⟩ := Finset.mem_filter.1 hid
  rw [List.mem_toFinset, List.mem_filter, decide_eq_true_eq]
  exact ⟨hkeys id hid hp, hp⟩

end Count

/-! ## Descents -/

/-- If a bucket holds our own id, more ids share the bits of its keys and one bit less with our own id than a bucket has room for, and
so on for fewer bits. -/
def Bucket.Crowded (own : Key) (ids : Finset Key) (b : Bucket) : Prop :=
  b.contains own = true → ∀ height, b.IsBlock height → ∀ shared < Key.bits - height, Bucket.capacity < sharingAtLeast own ids shared

namespace Bucket

variable {own : Key} {ids others : Finset Key} {b part : Bucket} {nodes : List Node} {height : Nat} {id : Key}

/-- A block has only one height. -/
theorem IsBlock.height_unique {other : Nat} (h : b.IsBlock height) (hother : b.IsBlock other) : height = other := by
  have hpow : 2 ^ height = 2 ^ other := Nat.add_left_cancel (h.2.symm.trans hother.2)
  exact (Nat.pow_right_inj (by omega)).1 hpow

/-- The nodes of a block that holds our own id are those that share its bits with it. -/
theorem IsBlock.population_of_own (h : b.IsBlock height) (hown : b.contains own = true) (nodes : List Node) :
    b.population nodes = (nodes.map Node.id).countP fun key => Key.bits - height ≤ own.shared key := by
  rw [List.countP_map]
  refine List.countP_congr fun n _ => ?_
  rw [Function.comp_apply, decide_eq_true_eq, h.contains_iff_shared hown]

/-- A bucket that is crowded stays so when there are more ids. -/
theorem Crowded.mono (h : b.Crowded own ids) (hsub : ids ⊆ others) : b.Crowded own others := by
  intro hown height hblock shared hshared
  exact Nat.lt_of_lt_of_le (h hown height hblock shared hshared) (sharingAtLeast_mono hsub shared)

/-- The bucket of all keys is crowded by any ids, as its keys have no bits in common. -/
theorem crowded_whole (own : Key) (ids : Finset Key) (now : Int) : (whole now).Crowded own ids := by
  intro hown height hblock shared hshared
  rw [hblock.height_unique (isBlock_whole now)] at hshared
  omega

/-- A full bucket of our own id and a further id offered to it make its halves crowded. -/
theorem Crowded.half (h : b.Crowded own ids) (hb : b.Fits nodes (height + 1)) (hfull : b.isFull = true)
    (hown : b.contains own = true) (hid : b.contains id = true) (hids : (id :: nodes.map Node.id).Nodup)
    (hmem : ∀ key ∈ id :: nodes.map Node.id, key ∈ ids) (hpart : part.IsBlock height) : part.Crowded own ids := by
  intro _ height' hblock shared hshared
  obtain rfl := hblock.height_unique hpart
  rcases Nat.lt_or_ge shared (Key.bits - (height' + 1)) with hlt | hge
  · exact h hown _ hb.block shared hlt
  · obtain rfl : shared = Key.bits - (height' + 1) := by omega
    have hle := countP_le_card (p := fun key => Key.bits - (height' + 1) ≤ own.shared key) hids hmem
    have hshares : Key.bits - (height' + 1) ≤ own.shared id := (hb.block.contains_iff_shared hown).1 hid
    rw [List.countP_cons, if_pos (decide_eq_true hshares), ← hb.block.population_of_own hown, hb.count_eq hfull] at hle
    exact hle

end Bucket

namespace Directory

variable {family : Family} {d : Directory family} {now : Int} {rule : SplitRule} {node : Node} {ids others : Finset Key}

/-! ## Directories -/

/-- The ids of a directory are among those offered to it, and its buckets are crowded. -/
structure Offered (own : Key) (ids : Finset Key) (d : Directory family) : Prop where
  known : ∀ n ∈ d.nodes.items, n.id ∈ ids
  crowded : ∀ b ∈ d.buckets.items, b.Crowded own ids

/-- A directory without nodes is as if nothing was offered. -/
theorem offered_empty (own : Key) (ids : Finset Key) (now : Int) : (empty now : Directory family).Offered own ids where
  known n hn := by cases hn
  crowded := forall_buckets_empty now (Bucket.crowded_whole own ids now)

theorem Offered.mono {own : Key} (h : d.Offered own ids) (hsub : ids ⊆ others) : d.Offered own others where
  known n hn := hsub (h.known n hn)
  crowded b hb := (h.crowded b hb).mono hsub

/-- An offer keeps to the ids that were offered, and leaves the buckets crowded. -/
theorem Offered.insert (h : d.Offered rule.ownId ids) (hd : d.Sound) (hlazy : rule.acceptAll = false) (hmem : node.id ∈ ids) :
    (d.insert now rule node).state.Offered rule.ownId ids := by
  refine ⟨?_, ?_⟩
  · intro n hn
    rcases (hd.mem_nodes_insert now rule node).1 hn with hn | ⟨-, rfl⟩
    · exact h.known n hn
    · exact hmem
  · refine hd.forall_buckets_insert (fun _ hc => hc) (fun hnew hfits hid hfull hrule hhalves hcrowded => ?_) h.crowded
    have hids : (node.id :: d.nodes.items.map Node.id).Nodup :=
      List.nodup_cons.2 ⟨fun hin => hnew (List.mem_map.1 hin), hd.ascending.nodup_ids⟩
    have hkeys : ∀ key ∈ node.id :: d.nodes.items.map Node.id, key ∈ ids := by
      refine List.forall_mem_cons.2 ⟨hmem, fun key hin => ?_⟩
      obtain ⟨n, hn, rfl⟩ := List.mem_map.1 hin
      exact h.known n hn
    have hown := SplitRule.contains_ownId hlazy hrule
    obtain ⟨hlower, hupper⟩ := hhalves.isBlock hfits.block
    exact ⟨hcrowded.half hfits hfull hown hid hids hkeys hlower, hcrowded.half hfits hfull hown hid hids hkeys hupper⟩

/-- A report about a node changes neither ids nor buckets. -/
theorem Offered.update {own id : Key} {status : Status} {d' : Directory family} (h : d.Offered own ids) (hd : d.Sound)
    (hd' : d.update? id status now = some d') : d'.Offered own ids where
  known n hn := by
    obtain ⟨m, hm, hid⟩ := (hd.holds_update hd').1 ⟨n, hn, rfl⟩
    rw [← hid]
    exact h.known m hm
  crowded := by
    rw [hd.buckets_update hd']
    exact h.crowded

end Directory

/-! ## Runs -/

/-- If not every id is welcome, the directories of every session are what the offers since the last clearing make of them. -/
theorem Session.run_offered (config : Config) (hlazy : config.acceptAll = false) (ops : List Operation) (family : Family) :
    (((start config).run ops).table.directory family).Offered config.ownId (offeredIds family ((start config).history ops)) := by
  refine run_history (P := fun s history => (s.table.directory family).Offered config.ownId (offeredIds family history))
    config ?_ ?_ ?_ ops
  · rw [show (start config).table.directory family = .empty 0 from Table.directory_empty config 0 family]
    exact Directory.offered_empty _ _ _
  · intro s hs
    rw [directory_step_clear]
    exact Directory.offered_empty _ _ _
  · intro s history op hs hop ih
    have hmore : offeredIds family history ⊆ offeredIds family (history ++ [s.entry op]) :=
      fun id hid => mem_offeredIds_concat.2 (Or.inl hid)
    have hkeep := ih.mono hmore
    rcases step_directory_of_ne_clear s hop family with h | ⟨contact, status, age, rfl, hfamily, hroom, h⟩ | ⟨id, status, -, h⟩
    · rw [h]
      exact hkeep
    · have hid : contact.id ∈ offeredIds family (history ++ [s.entry (.insert contact status age)]) :=
        mem_offeredIds_concat.2 (Or.inr (hs.offeredTo?_entry.2 ⟨hroom, contact, status, age, rfl, hfamily, rfl⟩))
      rw [h, hs.config_eq]
      exact hkeep.insert (hs.sound family) hlazy hid
    · exact hkeep.update (hs.sound family) h

end Kademlia
