import Kademlia.Proofs.Soundness

/-!
# Buckets by shared bits

If not every id is welcome, a bucket is split only while it holds our own id. So each bucket of a table is of one of two kinds
(`Bucket.Classed`): it holds our own id, or it holds exactly the keys that share a certain number of leading bits with our own id.
A bucket that holds our own id holds with a key all keys that share as many bits. Therefore, however a table came to its buckets, a
new id is refused exactly if eight nodes share as many leading bits with our own id as it does (`Directory.insert_outcome`).
-/

namespace Kademlia

/-- The number of nodes that share as many leading bits with our own id as a key does. -/
def peers (own : Key) (nodes : List Node) (key : Key) : Nat := nodes.countP fun n => own.shared n.id = own.shared key

namespace Bucket

/-! ## Classes -/

/-- A bucket that holds our own id, or else exactly the keys that share so many leading bits with it. -/
def Classed (own : Key) (b : Bucket) : Prop :=
  b.contains own = true ∨ ∃ shared, ∀ key, b.contains key = true ↔ own.shared key = shared

/-- The bucket of all keys holds our own id. -/
theorem whole_classed (own : Key) (now : Int) : (whole now).Classed own := by
  refine Or.inl (contains_iff.2 ⟨?_, ?_⟩)
  · rw [show (whole now).min.toNat = 0 from Octets.toNat_lowest]
    exact Nat.zero_le _
  · have hmax : (whole now).max.toNat + 1 = 256 ^ 20 := Octets.toNat_highest
    have hown := key_lt own
    rw [keyCount_eq] at hown
    omega

/-- The half of a block that does not hold our own id holds the keys that part from it at the bit of the split. -/
theorem Halves.classed {nodes : List Node} {now : Int} {b lower upper : Bucket} {height : Nat} {own : Key}
    (h : Halves nodes now b lower upper) (hb : b.IsBlock (height + 1)) (hown : b.contains own = true) :
    lower.Classed own ∧ upper.Classed own := by
  obtain ⟨hlower, hupper⟩ := h.isBlock hb
  have hheight := hb.height_le
  have hwhole : ∀ key, b.contains key = true ↔ Key.bits - (height + 1) ≤ own.shared key :=
    fun _ => hb.contains_iff_shared hown
  rcases h.contains_cases hown with ⟨hin, -⟩ | ⟨-, hin⟩
  · refine ⟨Or.inl hin, Or.inr ⟨Key.bits - (height + 1), fun key => ?_⟩⟩
    have hhalf : lower.contains key = true ↔ Key.bits - height ≤ own.shared key := hlower.contains_iff_shared hin
    rw [h.upper_contains_iff, hwhole, hhalf]
    omega
  · refine ⟨Or.inr ⟨Key.bits - (height + 1), fun key => ?_⟩, Or.inl hin⟩
    have hhalf : upper.contains key = true ↔ Key.bits - height ≤ own.shared key := hupper.contains_iff_shared hin
    rw [h.lower_contains_iff, hwhole, hhalf]
    omega

/-- A bucket holds with a key all keys that share as many leading bits with our own id. -/
theorem Classed.contains_of_shared_eq {own key other : Key} {b : Bucket} {height : Nat} (h : b.Classed own)
    (hb : b.IsBlock height) (hkey : b.contains key = true) (heq : own.shared other = own.shared key) :
    b.contains other = true := by
  rcases h with hown | ⟨shared, hclass⟩
  · rw [hb.contains_iff_shared hown] at hkey ⊢
    rwa [heq]
  · rw [hclass] at hkey ⊢
    rw [heq, hkey]

/-- The peers of a key are nodes of its bucket. -/
theorem Classed.peers_le {own key : Key} {b : Bucket} {height : Nat} (h : b.Classed own) (hb : b.IsBlock height)
    (hkey : b.contains key = true) (nodes : List Node) : peers own nodes key ≤ b.population nodes := by
  refine List.countP_mono_left ?_
  intro n _ hn
  exact h.contains_of_shared_eq hb hkey (of_decide_eq_true hn)

/-- Of a bucket without our own id the nodes are the peers of each of its keys. -/
theorem Classed.peers_eq {own key : Key} {b : Bucket} (h : b.Classed own) (hown : b.contains own = false)
    (hkey : b.contains key = true) (nodes : List Node) : peers own nodes key = b.population nodes := by
  rcases h with hin | ⟨shared, hclass⟩
  · rw [hown] at hin
    cases hin
  · refine List.countP_congr ?_
    intro n _
    rw [hclass, decide_eq_true_eq, (hclass key).1 hkey]

end Bucket

/-! ## Descents -/

/-- If not every id is welcome, only a bucket of our own id may be split. -/
theorem SplitRule.contains_ownId {rule : SplitRule} (hlazy : rule.acceptAll = false) {b : Bucket} (h : rule.allows b = true) :
    b.contains rule.ownId = true := by
  unfold SplitRule.allows at h
  rw [hlazy, Bool.false_or, Bool.and_eq_true] at h
  exact h.2

/-- A block that is refused and has more than one key does not hold our own id. -/
theorem SplitRule.not_contains_ownId {rule : SplitRule} {b : Bucket} (h : rule.allows b = false) (hb : b.isSingleton = false) :
    b.contains rule.ownId = false := by
  unfold SplitRule.allows at h
  rw [hb, Bool.not_false, Bool.true_and, Bool.or_eq_false_iff] at h
  exact h.2

/-- A block of one key is never full. -/
theorem Bucket.Fits.isSingleton_eq_false {nodes : List Node} {height : Nat} {b : Bucket} (h : b.Fits nodes height)
    (hnodes : Ascending nodes) (hfull : b.isFull = true) : b.isSingleton = false := by
  rw [Bool.eq_false_iff, ne_eq, h.block.isSingleton_iff]
  rintro rfl
  have hle := h.block.population_le hnodes
  rw [h.count_eq hfull] at hle
  exact absurd hle (by decide)

namespace Descent

variable {family : Family} {nodes : List Node} {now : Int} {rule : SplitRule} {b : Bucket} {id : Key} {outcome : Outcome}
  {bs : List Bucket} {events : List Event} {height : Nat}

/-- A descent ends with a refusal exactly if the id has eight peers. -/
theorem outcome_eq (h : Descent family nodes now rule id b outcome bs events) (hlazy : rule.acceptAll = false)
    (hnodes : Ascending nodes) (hb : b.Fits nodes height) (hclass : b.Classed rule.ownId) (hid : b.contains id = true) :
    outcome = if peers rule.ownId nodes id = Bucket.capacity then .bucketFull else .added := by
  induction h generalizing height with
  | @room b hfull =>
    have hpeers := hclass.peers_le hb.block hid nodes
    have hlt := Bucket.Fits.count_lt hfull
    rw [hb.counted] at hlt
    rw [if_neg (by omega)]
  | @refused b hfull hrule =>
    have hout := SplitRule.not_contains_ownId hrule (hb.isSingleton_eq_false hnodes hfull)
    rw [hclass.peers_eq hout hid, if_pos (hb.count_eq hfull)]
  | inLower hfull hrule halves hin rest ih =>
    obtain ⟨height, rfl⟩ := hb.block.exists_height hrule
    have hlower := (halves.classed hb.block (SplitRule.contains_ownId hlazy hrule)).1
    exact ih (hb.halves halves).1 hlower hin
  | inUpper hfull hrule halves hin rest ih =>
    obtain ⟨height, rfl⟩ := hb.block.exists_height hrule
    have hupper := (halves.classed hb.block (SplitRule.contains_ownId hlazy hrule)).2
    exact ih (hb.halves halves).2 hupper hin

end Descent

namespace Directory

variable {family : Family} {d : Directory family} {now : Int} {rule : SplitRule} {node : Node}

/-! ## Offers -/

/-- Every bucket is of one of the two kinds. -/
def Classed (own : Key) (d : Directory family) : Prop := ∀ b ∈ d.buckets.items, b.Classed own

theorem classed_empty (own : Key) (now : Int) : (empty now : Directory family).Classed own :=
  forall_buckets_empty now (Bucket.whole_classed own now)

/-- If not every id is welcome, an offer leaves every bucket classed. -/
theorem Classed.insert (hclass : d.Classed rule.ownId) (hd : d.Sound) (hlazy : rule.acceptAll = false) :
    (d.insert now rule node).state.Classed rule.ownId :=
  hd.forall_buckets_insert (fun _ hc => hc)
    (fun _ hfits _ _ hrule hhalves _ => hhalves.classed hfits.block (SplitRule.contains_ownId hlazy hrule)) hclass

theorem Classed.update {own id : Key} {status : Status} {d' : Directory family} (hclass : d.Classed own) (hd : d.Sound)
    (h : d.update? id status now = some d') : d'.Classed own := by
  unfold Classed
  rw [hd.buckets_update h]
  exact hclass

/-- The answer to an offer does not depend on the buckets: a known id is known, a new one is refused if it has eight peers. -/
theorem insert_outcome (hd : d.Sound) (hclass : d.Classed rule.ownId) (hlazy : rule.acceptAll = false) :
    (d.insert now rule node).outcome =
      if d.nodes.Holds node.id then .alreadyPresent
      else if peers rule.ownId d.nodes.items node.id = Bucket.capacity then .bucketFull
      else .added := by
  by_cases hid : d.nodes.Holds node.id
  · rw [insert_of_holds hd.ascending hd.tiles hid, if_pos hid]
  · obtain ⟨before, b, behind, height, outcome, bs, events, hb, hkey, hfits, hdescent, hresult⟩ :=
      hd.exists_descent hid now rule
    have hmem : b ∈ d.buckets.items := hb ▸ List.mem_append_right before List.mem_cons_self
    rw [hresult, if_neg hid]
    exact hdescent.outcome_eq hlazy hd.ascending hfits (hclass b hmem) hkey

end Directory

end Kademlia
