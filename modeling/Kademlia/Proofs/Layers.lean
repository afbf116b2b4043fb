import Kademlia.Proofs.Crowding
import Kademlia.Proofs.Looks
import Kademlia.Proofs.Trie
import Mathlib.Order.Bounds.Basic

/-!
# The layers around our own id

If not every id is welcome, the buckets of a family follow from the ids that were offered to it, stored or refused: a bucket for each
number of leading bits shared with our own id as long as more than eight offered ids share at least as many, and one bucket for the rest
of the keys (`layers`). Each counts the ids offered to it, up to eight. Neither the order of the offers nor repetitions matter, since no
id offered to the bucket of our own id was ever refused (`Layered.holds_of_contains`), and a bucket apart from it is full as soon as one
was (`Layered.count_side`).
-/

namespace Kademlia

/-! ## Blocks as leaves -/

/-- The keys that begin with the bits of a number and have so many free ones, as one bucket. -/
def blockLeaf (bits height count : Nat) : Leaf := ⟨bits * 2 ^ height, bits * 2 ^ height + 2 ^ height - 1, count⟩

/-- A key is in the bucket of a block if it begins with its bits. -/
theorem blockLeaf_contains_iff {bits height count : Nat} {key : Key} :
    (blockLeaf bits height count).Contains key ↔ key.toNat / 2 ^ height = bits := by
  have hpos := Nat.two_pow_pos height
  rw [Nat.div_eq_iff hpos]
  rfl

/-- The bucket of the keys that share at least so many leading bits with our own id. -/
def innerLeaf (own : Key) (shared count : Nat) : Leaf :=
  let height := Key.bits - shared
  blockLeaf (own.toNat / 2 ^ height) height count

/-- The bucket of the keys that share exactly so many leading bits with our own id: the next bit is the other one. -/
def sideLeaf (own : Key) (shared count : Nat) : Leaf :=
  let height := Key.bits - (shared + 1)
  let bits := own.toNat / 2 ^ height
  blockLeaf (bits + 1 - 2 * (bits % 2)) height count

/-- A key is in the inner bucket if it shares at least so many bits with our own id. -/
theorem innerLeaf_contains_iff {own key : Key} {shared : Nat} (h : shared ≤ Key.bits) (count : Nat) :
    (innerLeaf own shared count).Contains key ↔ shared ≤ own.shared key := by
  have hshared := Key.sub_le_shared_iff (a := own) (b := key) (Nat.sub_le Key.bits shared)
  rw [Nat.sub_sub_self h] at hshared
  rw [innerLeaf, blockLeaf_contains_iff, hshared, eq_comm]

/-- A key is in a side bucket if it shares exactly so many bits with our own id. -/
theorem sideLeaf_contains_iff {own key : Key} {shared : Nat} (h : shared < Key.bits) (count : Nat) :
    (sideLeaf own shared count).Contains key ↔ own.shared key = shared := by
  have hmore := Key.sub_le_shared_iff (a := own) (b := key) (Nat.sub_le Key.bits (shared + 1))
  have hleast := Key.sub_le_shared_iff (a := own) (b := key) (Nat.sub_le Key.bits shared)
  rw [Nat.sub_sub_self h] at hmore
  rw [Nat.sub_sub_self (Nat.le_of_lt h), show Key.bits - shared = Key.bits - (shared + 1) + 1 by omega, Nat.pow_succ,
    ← Nat.div_div_eq_div_mul, ← Nat.div_div_eq_div_mul] at hleast
  rw [sideLeaf, blockLeaf_contains_iff]
  generalize own.toNat / 2 ^ (Key.bits - (shared + 1)) = a at *
  generalize key.toNat / 2 ^ (Key.bits - (shared + 1)) = b at *
  omega

/-- A block of as many bits as keys have lies within the key space. -/
theorem blockLeaf_max_lt {bits height count : Nat} (hheight : height ≤ Key.bits) (h : bits < 2 ^ (Key.bits - height)) :
    (blockLeaf bits height count).max < keyCount := by
  have hpos := Nat.two_pow_pos height
  have hle : (bits + 1) * 2 ^ height ≤ 2 ^ (Key.bits - height) * 2 ^ height := Nat.mul_le_mul_right _ h
  rw [← Nat.pow_add, Nat.sub_add_cancel hheight, Nat.add_mul, Nat.one_mul] at hle
  show bits * 2 ^ height + 2 ^ height - 1 < 2 ^ Key.bits
  omega

/-- The leading bits of a key are a number of so many bits. -/
theorem bits_lt (key : Key) {height : Nat} (h : height ≤ Key.bits) : key.toNat / 2 ^ height < 2 ^ (Key.bits - height) := by
  rw [Nat.div_lt_iff_lt_mul (Nat.two_pow_pos height), ← Nat.pow_add, Nat.sub_add_cancel h]
  exact key_lt key

theorem innerLeaf_max_lt (own : Key) (shared count : Nat) : (innerLeaf own shared count).max < keyCount :=
  blockLeaf_max_lt (Nat.sub_le _ _) (bits_lt own (Nat.sub_le _ _))

theorem sideLeaf_max_lt (own : Key) {shared : Nat} (h : shared < Key.bits) (count : Nat) :
    (sideLeaf own shared count).max < keyCount := by
  refine blockLeaf_max_lt (Nat.sub_le _ _) ?_
  have hlt := bits_lt own (Nat.sub_le Key.bits (shared + 1))
  rw [Nat.sub_sub_self h, Nat.pow_succ] at hlt ⊢
  generalize own.toNat / 2 ^ (Key.bits - (shared + 1)) = a at *
  omega

/-- The bucket of a block is not empty. -/
theorem blockLeaf_min_le_max (bits height count : Nat) :
    (blockLeaf bits height count).min ≤ (blockLeaf bits height count).max := by
  have hpos := Nat.two_pow_pos height
  unfold blockLeaf
  simp only
  omega

/-- A key shares so many leading bits with our own id and not one more. -/
theorem exists_shared_eq (own : Key) {shared : Nat} (h : shared < Key.bits) : ∃ key, own.shared key = shared := by
  have hmax := sideLeaf_max_lt own h 0
  have hle : (sideLeaf own shared 0).min ≤ (sideLeaf own shared 0).max := blockLeaf_min_le_max _ _ _
  have hmin : (Octets.ofNat 20 (sideLeaf own shared 0).min).toNat = (sideLeaf own shared 0).min :=
    Octets.toNat_ofNat (keyCount_eq ▸ Nat.lt_of_le_of_lt hle hmax)
  refine ⟨Octets.ofNat 20 (sideLeaf own shared 0).min, (sideLeaf_contains_iff h 0).1 ?_⟩
  rw [Leaf.Contains, hmin]
  exact ⟨Nat.le_refl _, hle⟩

/-- The ends of a bucket follow from the keys that it holds. -/
theorem Bucket.toLeaf_eq {b : Bucket} {e : Leaf} (hb : b.min.toNat ≤ b.max.toNat) (he : e.min ≤ e.max) (hmax : e.max < keyCount)
    (hkeys : ∀ key, b.contains key = true ↔ e.Contains key) (hcount : b.count = e.count) : b.toLeaf = e := by
  have hbmin := (hkeys b.min).1 (contains_iff.2 ⟨Nat.le_refl _, hb⟩)
  have hbmax := (hkeys b.max).1 (contains_iff.2 ⟨hb, Nat.le_refl _⟩)
  have hends : ∀ k, e.min ≤ k → k ≤ e.max → b.min.toNat ≤ k ∧ k ≤ b.max.toNat := by
    intro k hlow hhigh
    have hk : (Octets.ofNat 20 k).toNat = k := Octets.toNat_ofNat (keyCount_eq ▸ Nat.lt_of_le_of_lt hhigh hmax)
    have hcontains := contains_iff.1 ((hkeys (Octets.ofNat 20 k)).2 (by rw [Leaf.Contains, hk]; exact ⟨hlow, hhigh⟩))
    rwa [hk] at hcontains
  have hlow := hends e.min (Nat.le_refl _) he
  have hhigh := hends e.max he (Nat.le_refl _)
  unfold Leaf.Contains at hbmin hbmax
  obtain ⟨min, max, count⟩ := e
  simp only at *
  rw [toLeaf, Leaf.mk.injEq]
  exact ⟨by omega, by omega, hcount⟩

/-! ## Layers -/

/-- The buckets that ids make around our own id: for each of the first numbers of shared bits the keys that share exactly so many, and
the rest. -/
def layers (own : Key) (ids : Finset Key) (depth : Nat) : List Leaf :=
  (List.range depth).map (fun shared => sideLeaf own shared (min Bucket.capacity (sharing own ids shared))) ++
    [innerLeaf own depth (sharingAtLeast own ids depth)]

theorem mem_layers {own : Key} {ids : Finset Key} {depth : Nat} {e : Leaf} :
    e ∈ layers own ids depth ↔
      (∃ shared < depth, e = sideLeaf own shared (min Bucket.capacity (sharing own ids shared))) ∨
        e = innerLeaf own depth (sharingAtLeast own ids depth) := by
  simp [layers, eq_comm]

/-- Only our own id shares all bits with it. -/
theorem shared_self (own : Key) : own.shared own = Key.bits :=
  Nat.le_antisymm (Key.shared_le own own) (Key.bits_le_shared_iff.2 rfl)

/-- No two layers are the same. -/
theorem layers_nodup {own : Key} {ids : Finset Key} {depth : Nat} (h : depth ≤ Key.bits) : (layers own ids depth).Nodup := by
  refine List.nodup_append.2 ⟨?_, List.nodup_singleton _, ?_⟩
  · refine List.Nodup.map_on (fun i hi j hj heq => ?_) List.nodup_range
    have hi' : i < Key.bits := Nat.lt_of_lt_of_le (List.mem_range.1 hi) h
    have hj' : j < Key.bits := Nat.lt_of_lt_of_le (List.mem_range.1 hj) h
    obtain ⟨key, hkey⟩ := exists_shared_eq own hi'
    have hcontains := (sideLeaf_contains_iff hi' (min Bucket.capacity (sharing own ids i))).2 hkey
    rw [heq, sideLeaf_contains_iff hj', hkey] at hcontains
    exact hcontains
  · intro a ha b hb heq
    obtain ⟨shared, hshared, rfl⟩ := List.mem_map.1 ha
    have hlt : shared < Key.bits := Nat.lt_of_lt_of_le (List.mem_range.1 hshared) h
    have hown : (innerLeaf own depth (sharingAtLeast own ids depth)).Contains own := by
      rw [innerLeaf_contains_iff h, shared_self]
      exact h
    rw [← List.mem_singleton.1 hb, ← heq, sideLeaf_contains_iff hlt, shared_self] at hown
    omega

/-- The leaves of a tiling are in the order of their lower ends. -/
theorem Tiles.pairwise_toLeaf {start stop : Nat} {bs : List Bucket} (h : Tiles start stop bs) :
    (bs.map Bucket.toLeaf).Pairwise fun a b => a.min < b.min := by
  refine List.pairwise_map.2 (h.pairwise.imp_of_mem fun {a b} ha hb hlt => ?_)
  exact Nat.lt_of_le_of_lt (h.bounds ha).2.1 hlt

namespace Directory

variable {family : Family} {d : Directory family} {rule : SplitRule} {ids : Finset Key} {b c : Bucket} {height : Nat} {id : Key}

/-- What a directory that does not welcome every id has become after offers of these ids. -/
structure Layered (rule : SplitRule) (ids : Finset Key) (d : Directory family) : Prop where
  lazily : rule.acceptAll = false
  sound : d.Sound
  wide : d.Wide
  classed : d.Classed rule.ownId
  refuses : ∀ id ∈ ids, d.Refuses rule id
  offered : d.Offered rule.ownId ids

/-- Each key is in one bucket only. -/
theorem Sound.eq_of_mem (hd : d.Sound) {key : Key} (hb : b ∈ d.buckets.items) (hc : c ∈ d.buckets.items)
    (hkey : b.contains key = true) (hkey' : c.contains key = true) : c = b := by
  obtain ⟨before, behind, hitems⟩ := List.append_of_mem hb
  exact eq_of_contains hd.tiles hitems hkey hc hkey'

namespace Layered

variable (h : d.Layered rule ids)
include h

/-! ### The bucket of our own id -/

section Inner

variable (hb : b ∈ d.buckets.items) (hown : b.contains rule.ownId = true)
include hb hown

/-- An id that was offered to the bucket of our own id is known. -/
theorem holds_of_contains (hid : id ∈ ids) (hkey : b.contains id = true) : d.nodes.Holds id := by
  rcases h.refuses id hid with hknown | ⟨c, hc, hcid, hfull, hrule⟩
  · exact hknown
  · obtain rfl := h.sound.eq_of_mem hb hc hkey hcid
    rw [(h.wide c hc).allows_eq, hown, Bool.or_true] at hrule
    cases hrule

/-- The bucket of our own id counts the ids offered to it. -/
theorem count_inner (hblock : b.IsBlock height) : b.count = sharingAtLeast rule.ownId ids (Key.bits - height) := by
  obtain ⟨_, hfits⟩ := h.sound.fits b hb
  rw [hfits.counted, hblock.population_of_own hown]
  refine Nat.le_antisymm (countP_le_card h.sound.ascending.nodup_ids ?_) (card_le_countP ?_)
  · intro key hkey
    obtain ⟨n, hn, rfl⟩ := List.mem_map.1 hkey
    exact h.offered.known n hn
  · intro id hid hshared
    exact List.mem_map.2 (h.holds_of_contains hb hown hid ((hblock.contains_iff_shared hown).2 hshared))

/-- The bucket of our own id is the first of its kind that is not overcrowded. -/
theorem isLeast_inner (hblock : b.IsBlock height) :
    IsLeast {shared | sharingAtLeast rule.ownId ids shared ≤ Bucket.capacity} (Key.bits - height) := by
  refine ⟨?_, fun shared hshared => ?_⟩
  · obtain ⟨_, hfits⟩ := h.sound.fits b hb
    show sharingAtLeast rule.ownId ids (Key.bits - height) ≤ Bucket.capacity
    rw [← h.count_inner hb hown hblock]
    exact hfits.bounded
  · refine Nat.le_of_not_lt fun hlt => ?_
    exact Nat.not_lt.2 hshared (h.offered.crowded b hb hown height hblock shared hlt)

/-- The bucket of our own id is the inner one of its depth, with the ids offered to it. -/
theorem toLeaf_inner (hblock : b.IsBlock height) :
    b.toLeaf = innerLeaf rule.ownId (Key.bits - height) (sharingAtLeast rule.ownId ids (Key.bits - height)) := by
  refine Bucket.toLeaf_eq hblock.min_le_max (blockLeaf_min_le_max _ _ _) (innerLeaf_max_lt _ _ _) (fun key => ?_)
    (h.count_inner hb hown hblock)
  rw [hblock.contains_iff_shared hown, innerLeaf_contains_iff (Nat.sub_le _ _)]

end Inner

/-! ### The other buckets -/

/-- A bucket of the keys that share exactly so many bits with our own id counts the ids offered to it, up to eight. -/
theorem count_side (hc : c ∈ d.buckets.items) {shared : Nat}
    (hclass : ∀ key, c.contains key = true ↔ rule.ownId.shared key = shared) :
    c.count = min Bucket.capacity (sharing rule.ownId ids shared) := by
  obtain ⟨_, hfits⟩ := h.sound.fits c hc
  have hcount : c.count = (d.nodes.items.map Node.id).countP fun key => rule.ownId.shared key = shared := by
    rw [hfits.counted, List.countP_map]
    refine List.countP_congr fun n _ => ?_
    rw [hclass, Function.comp_apply, decide_eq_true_eq]
  have hle : c.count ≤ sharing rule.ownId ids shared := by
    rw [hcount]
    refine countP_le_card h.sound.ascending.nodup_ids fun key hkey => ?_
    obtain ⟨n, hn, rfl⟩ := List.mem_map.1 hkey
    exact h.offered.known n hn
  by_cases hall : ∀ id ∈ ids, rule.ownId.shared id = shared → d.nodes.Holds id
  · have hge : sharing rule.ownId ids shared ≤ c.count := by
      rw [hcount]
      exact card_le_countP fun id hid hshared => List.mem_map.2 (hall id hid hshared)
    rw [Nat.le_antisymm hge hle, Nat.min_eq_right hfits.bounded]
  · -- an id that was refused found its bucket full
    push Not at hall
    obtain ⟨id, hid, hshared, hnew⟩ := hall
    obtain ⟨b, hb, hkey, hfull, -⟩ := (h.refuses id hid).resolve_left hnew
    obtain rfl := h.sound.eq_of_mem hc hb ((hclass id).2 hshared) hkey
    have hfull' : b.count = Bucket.capacity := Nat.le_antisymm hfits.bounded (Bucket.isFull_iff.1 hfull)
    rw [← hfull', Nat.min_eq_left hle]

/-- A bucket apart from our own id holds the keys that share exactly so many bits with it, fewer than those in its bucket. -/
theorem toLeaf_side (hb : b ∈ d.buckets.items) (hown : b.contains rule.ownId = true) (hblock : b.IsBlock height)
    (hc : c ∈ d.buckets.items) (hne : c.contains rule.ownId = false) :
    ∃ shared < Key.bits - height, (∀ key, c.contains key = true ↔ rule.ownId.shared key = shared) ∧
      c.toLeaf = sideLeaf rule.ownId shared (min Bucket.capacity (sharing rule.ownId ids shared)) := by
  rcases h.classed c hc with hin | ⟨shared, hclass⟩
  · rw [hne] at hin
    cases hin
  obtain ⟨_, hfits⟩ := h.sound.fits c hc
  have hmin : c.contains c.min = true := Bucket.contains_iff.2 ⟨Nat.le_refl _, hfits.block.min_le_max⟩
  have hlt : shared < Key.bits - height := by
    refine Nat.lt_of_not_le fun hge => ?_
    have hin : b.contains c.min = true := by
      rw [hblock.contains_iff_shared hown, (hclass c.min).1 hmin]
      exact hge
    obtain rfl := h.sound.eq_of_mem hb hc hin hmin
    rw [hown] at hne
    cases hne
  have hbits : shared < Key.bits := Nat.lt_of_lt_of_le hlt (Nat.sub_le _ _)
  refine ⟨shared, hlt, hclass, ?_⟩
  refine Bucket.toLeaf_eq hfits.block.min_le_max (blockLeaf_min_le_max _ _ _) (sideLeaf_max_lt _ hbits _) (fun key => ?_)
    (h.count_side hc hclass)
  rw [hclass, sideLeaf_contains_iff hbits]

/-! ### All buckets -/

/-- The buckets are the layers that the offered ids make. -/
theorem exists_depth : ∃ depth ≤ 157, IsLeast {shared | sharingAtLeast rule.ownId ids shared ≤ Bucket.capacity} depth ∧
    (d.buckets.items.map Bucket.toLeaf).Perm (layers rule.ownId ids depth) := by
  obtain ⟨before, b, behind, hitems, hown⟩ := exists_bucket h.sound.tiles rule.ownId
  have hb : b ∈ d.buckets.items := hitems ▸ List.mem_append_right before List.mem_cons_self
  obtain ⟨height, hfits⟩ := h.sound.fits b hb
  have hthree := hfits.block.wide_iff.1 (h.wide b hb)
  refine ⟨Key.bits - height, by rw [show Key.bits = 160 from rfl]; omega, h.isLeast_inner hb hown hfits.block, ?_⟩
  have hnodup : (d.buckets.items.map Bucket.toLeaf).Nodup :=
    h.sound.tiles.pairwise_toLeaf.imp fun hlt heq => Nat.ne_of_lt hlt (congrArg Leaf.min heq)
  refine (List.perm_ext_iff_of_nodup hnodup (layers_nodup (Nat.sub_le _ _))).2 fun e => ?_
  rw [mem_layers, List.mem_map]
  constructor
  · rintro ⟨c, hc, rfl⟩
    cases hin : c.contains rule.ownId with
    | true =>
      obtain rfl := h.sound.eq_of_mem hb hc hown hin
      exact Or.inr (h.toLeaf_inner hc hin hfits.block)
    | false =>
      obtain ⟨shared, hlt, -, hleaf⟩ := h.toLeaf_side hb hown hfits.block hc hin
      exact Or.inl ⟨shared, hlt, hleaf⟩
  · rintro (⟨shared, hlt, rfl⟩ | rfl)
    · obtain ⟨key, hkey⟩ := exists_shared_eq rule.ownId (Nat.lt_of_lt_of_le hlt (Nat.sub_le _ _))
      obtain ⟨before', c, behind', hitems', hcontains⟩ := exists_bucket h.sound.tiles key
      have hc : c ∈ d.buckets.items := hitems' ▸ List.mem_append_right before' List.mem_cons_self
      have hne : c.contains rule.ownId = false := by
        refine Bool.eq_false_iff.2 fun hin => ?_
        obtain rfl := h.sound.eq_of_mem hb hc hown hin
        have hge := (hfits.block.contains_iff_shared hin).1 hcontains
        omega
      obtain ⟨shared', -, hclass, hleaf⟩ := h.toLeaf_side hb hown hfits.block hc hne
      obtain rfl := ((hclass key).1 hcontains).symm.trans hkey
      exact ⟨c, hc, hleaf⟩
    · exact ⟨b, hb, h.toLeaf_inner hb hown hfits.block⟩

/-- The same ids make the same buckets. -/
theorem map_toLeaf_eq {other : Directory family} (hother : other.Layered rule ids) :
    other.buckets.items.map Bucket.toLeaf = d.buckets.items.map Bucket.toLeaf := by
  obtain ⟨depth, -, hleast, hperm⟩ := h.exists_depth
  obtain ⟨depth', -, hleast', hperm'⟩ := hother.exists_depth
  obtain rfl := hleast.unique hleast'
  refine List.Perm.eq_of_pairwise (fun a b _ _ hab hba => absurd hab (Nat.lt_asymm hba)) hother.sound.tiles.pairwise_toLeaf
    h.sound.tiles.pairwise_toLeaf (hperm'.trans hperm.symm)

end Layered

end Directory

/-! ## Runs -/

namespace Session

/-- If not every id is welcome, the buckets of every run are classed. -/
theorem run_classed (config : Config) (hlazy : config.acceptAll = false) (ops : List Operation) (family : Family) :
    (((start config).run ops).table.directory family).Classed config.ownId := by
  refine (run_directory (P := fun d => d.Sound ∧ d.Classed config.ownId) config ?_ ?_ ?_ ops).2
  · exact fun now => ⟨Directory.sound_empty now, Directory.classed_empty _ now⟩
  · intro d now node hfamily hd
    have hclass : d.Classed config.toSplitRule.ownId := hd.2
    exact ⟨hd.1.insert hfamily, hclass.insert hd.1 hlazy⟩
  · exact fun d d' id status now hd h => ⟨hd.1.update h, hd.2.update hd.1 h⟩

/-- If not every id is welcome, the directories of every run are layered by the ids offered since the last clearing. -/
theorem run_layered (config : Config) (hlazy : config.acceptAll = false) (ops : List Operation) (family : Family) :
    (((start config).run ops).table.directory family).Layered config.toSplitRule
      (offeredIds family ((start config).history ops)) where
  lazily := hlazy
  sound := run_sound config ops family
  wide := run_wide config ops family
  classed := run_classed config hlazy ops family
  refuses := run_refuses config ops family
  offered := run_offered config hlazy ops family

end Session

/-- If not every id is welcome, the buckets of a family are, in the order of the keys, the layers of the ids that were offered to it since
the last clearing and not stopped by the limit on the nodes of both families: one for each number of bits that more than eight of these
ids share at least with our own id, and one for the rest of the keys. There are at most 158, and whatever the order of the offers, the
same ids make the same buckets. -/
theorem run_layers (ownId : Key) (maxNodes closestCount : Nat) (ops : List Operation) (family : Family) :
    let start := Session.start { ownId, acceptAll := false, maxNodes, closestCount }
    let ids := offeredIds family (start.history ops)
    let buckets := (start.run ops).table.buckets family
    (∃ depth ≤ 157, IsLeast {shared | sharingAtLeast ownId ids shared ≤ 8} depth ∧
      (buckets.map Bucket.toLeaf).Perm (layers ownId ids depth)) ∧
    (buckets.Pairwise fun a b => a.max < b.min) ∧
    buckets.length ≤ 158 ∧
    ∀ maxNodes closestCount others,
      let other := Session.start { ownId, acceptAll := false, maxNodes, closestCount }
      offeredIds family (other.history others) = ids →
        ((other.run others).table.buckets family).map Bucket.toLeaf = buckets.map Bucket.toLeaf := by
  intro start ids buckets
  have hlayered : ((start.run ops).table.directory family).Layered { ownId, acceptAll := false } ids :=
    Session.run_layered { ownId, acceptAll := false, maxNodes, closestCount } rfl ops family
  obtain ⟨depth, hdepth, hleast, hperm⟩ := hlayered.exists_depth
  refine ⟨⟨depth, hdepth, hleast, hperm⟩, ?_, ?_, ?_⟩
  · exact hlayered.sound.tiles.pairwise.imp Octets.lt_iff.2
  · have hlength := hperm.length_eq
    rw [List.length_map, layers, List.length_append, List.length_map, List.length_range, List.length_singleton] at hlength
    show ((start.run ops).table.directory family).buckets.items.length ≤ 158
    omega
  · intro maxNodes' closestCount' others other hids
    have hother : ((other.run others).table.directory family).Layered { ownId, acceptAll := false }
        (offeredIds family (other.history others)) :=
      Session.run_layered { ownId, acceptAll := false, maxNodes := maxNodes', closestCount := closestCount' } rfl others family
    rw [hids] at hother
    exact hlayered.map_toLeaf_eq hother

/-- Eleven ids, nine of which share no bit with our own: in the reverse order another one of the nine is refused, and yet the buckets are
the same. -/
theorem run_layers_reversed :
    let start := Session.start { ownId := Key.lowest, acceptAll := false, maxNodes := 20, closestCount := 16 }
    let offers := (List.range 11).map fun k => Operation.insert ⟨Key.ofNat ((k + 14) * 2 ^ 155), .v4 (Octets.lowest 4) 0⟩ .good 0
    offeredIds .v4 (start.history offers.reverse) = offeredIds .v4 (start.history offers) ∧
      (start.run offers.reverse).table.nodes .v4 ≠ (start.run offers).table.nodes .v4 ∧
      ((start.run offers.reverse).table.buckets .v4).map Bucket.toLeaf =
        ((start.run offers).table.buckets .v4).map Bucket.toLeaf := by
  intro start offers
  have hids : offeredIds .v4 (start.history offers.reverse) = offeredIds .v4 (start.history offers) := by decide +kernel
  have hnodes : (start.run offers.reverse).table.nodes .v4 ≠ (start.run offers).table.nodes .v4 := by decide +kernel
  exact ⟨hids, hnodes, (run_layers Key.lowest 20 16 offers .v4).2.2.2 20 16 offers.reverse hids⟩

end Kademlia
