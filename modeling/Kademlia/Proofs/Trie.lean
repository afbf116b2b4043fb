import Kademlia.Proofs.PrefixClass
import Kademlia.Proofs.Run

/-!
# The trie of the stored ids

If every id is welcome, each full bucket of more than one key is split before a node is refused. Then the buckets of a family are
determined by the ids that it holds: they are the leaves of the trie of these ids (`trie`), the tree that halves a block of keys as
long as more than eight ids lie in it. An offer replaces the leaf of its id by the trie under it (`Descent.trie_eq`), which is what
the trie of one id more does to its leaves (`trie_cons`).
-/

namespace Kademlia

/-! ## Tries -/

/-- The ends of a bucket, as numbers, and its count. -/
structure Leaf where
  min : Nat
  max : Nat
  count : Nat
deriving DecidableEq

/-- The ends and the count of a bucket. -/
def Bucket.toLeaf (b : Bucket) : Leaf := ⟨b.min.toNat, b.max.toNat, b.count⟩

/-- The number of ids in the block of `2 ^ height` keys from `low` on. -/
def idsWithin (ids : List Key) (height low : Nat) : Nat :=
  ids.countP fun id => low ≤ id.toNat ∧ id.toNat < low + 2 ^ height

/-- The block of `2 ^ height` keys from `low` on as one bucket. -/
def leafAt (ids : List Key) (height low : Nat) : Leaf := ⟨low, low + 2 ^ height - 1, idsWithin ids height low⟩

/-- The buckets that ids make of the block of `2 ^ height` keys from `low` on: a block of at most eight ids is one bucket, and a block
of more gives way to the buckets of its lower and its upper half. A block of one key has no more than one id. -/
def trie (ids : List Key) : Nat → Nat → List Leaf
  | 0, low => [leafAt ids 0 low]
  | height + 1, low =>
    if idsWithin ids (height + 1) low ≤ 8 then [leafAt ids (height + 1) low]
    else trie ids height low ++ trie ids height (low + 2 ^ height)

variable {ids : List Key} {height low : Nat}

/-- A block of at most eight ids is one bucket. -/
theorem trie_of_le (h : idsWithin ids height low ≤ 8) : trie ids height low = [leafAt ids height low] := by
  cases height with
  | zero => rfl
  | succ height => exact if_pos h

theorem trie_of_lt (h : 8 < idsWithin ids (height + 1) low) :
    trie ids (height + 1) low = trie ids height low ++ trie ids height (low + 2 ^ height) :=
  if_neg (Nat.not_le.2 h)

/-- An id more counts for the blocks that hold it. -/
theorem idsWithin_cons (id : Key) (ids : List Key) (height low : Nat) :
    idsWithin (id :: ids) height low =
      idsWithin ids height low + if low ≤ id.toNat ∧ id.toNat < low + 2 ^ height then 1 else 0 := by
  unfold idsWithin
  rw [List.countP_cons]
  simp only [decide_eq_true_eq]

/-- An id elsewhere does not matter to a block. -/
theorem trie_cons_of_not {id : Key} (h : ¬(low ≤ id.toNat ∧ id.toNat < low + 2 ^ height)) :
    trie (id :: ids) height low = trie ids height low := by
  have hwithin : idsWithin (id :: ids) height low = idsWithin ids height low := by
    rw [idsWithin_cons, if_neg h, Nat.add_zero]
  induction height generalizing low with
  | zero => rw [trie, trie, leafAt, leafAt, hwithin]
  | succ height ih =>
    rw [Nat.pow_succ] at h
    have hlower : ¬(low ≤ id.toNat ∧ id.toNat < low + 2 ^ height) := by omega
    have hupper : ¬(low + 2 ^ height ≤ id.toNat ∧ id.toNat < low + 2 ^ height + 2 ^ height) := by omega
    rw [trie, trie, leafAt, leafAt, hwithin]
    rw [ih hlower (by rw [idsWithin_cons, if_neg hlower, Nat.add_zero]),
      ih hupper (by rw [idsWithin_cons, if_neg hupper, Nat.add_zero])]

/-- The order of the ids does not matter to their trie. -/
theorem trie_perm {others : List Key} (h : ids.Perm others) (height low : Nat) :
    trie ids height low = trie others height low := by
  have hwithin : ∀ height low, idsWithin ids height low = idsWithin others height low := fun _ _ => h.countP_eq _
  induction height generalizing low with
  | zero => simp only [trie, leafAt, hwithin]
  | succ height ih => simp only [trie, leafAt, hwithin, ih]

/-- Whether a key lies between the ends. -/
def Leaf.Contains (e : Leaf) (key : Key) : Prop := e.min ≤ key.toNat ∧ key.toNat ≤ e.max

instance (e : Leaf) (key : Key) : Decidable (e.Contains key) := inferInstanceAs (Decidable (_ ∧ _))

/-- A key is in the bucket of a block if it is in the block. -/
theorem leafAt_contains_iff {key : Key} :
    (leafAt ids height low).Contains key ↔ low ≤ key.toNat ∧ key.toNat < low + 2 ^ height := by
  have hpos := Nat.two_pow_pos height
  unfold Leaf.Contains leafAt
  simp only
  omega

/-- A leaf that gives way to others if it holds an id. -/
def Leaf.giveWay (id : Key) (others : List Leaf) (e : Leaf) : List Leaf := if e.Contains id then others else [e]

/-- Where the trie is one bucket, an id more makes of it what the block then is, or leaves it. -/
theorem trie_cons_of_leaf {id : Key} {others : List Leaf} (h : trie ids height low = [leafAt ids height low])
    (hothers : (leafAt ids height low).Contains id → others = trie (id :: ids) height low) :
    trie (id :: ids) height low = (trie ids height low).flatMap (Leaf.giveWay id others) := by
  rw [h, List.flatMap_singleton, Leaf.giveWay]
  by_cases hid : (leafAt ids height low).Contains id
  · rw [if_pos hid, hothers hid]
  · rw [if_neg hid, trie_cons_of_not (mt leafAt_contains_iff.2 hid), h]

/-- An id more makes of the leaf that holds it the trie under this leaf, and leaves the others as they are. -/
theorem trie_cons {id : Key} {others : List Leaf}
    (hothers : ∀ height' low', leafAt ids height' low' ∈ trie ids height low → (leafAt ids height' low').Contains id →
      others = trie (id :: ids) height' low') :
    trie (id :: ids) height low = (trie ids height low).flatMap (Leaf.giveWay id others) := by
  induction height generalizing low with
  | zero => exact trie_cons_of_leaf rfl (hothers 0 low (List.mem_singleton_self _))
  | succ height ih =>
    rcases Nat.lt_or_ge 8 (idsWithin ids (height + 1) low) with hlt | hle
    · have hlt' : 8 < idsWithin (id :: ids) (height + 1) low := by
        rw [idsWithin_cons]
        omega
      rw [trie_of_lt hlt] at hothers ⊢
      rw [trie_of_lt hlt', List.flatMap_append, ih fun _ _ hmem => hothers _ _ (List.mem_append_left _ hmem),
        ih fun _ _ hmem => hothers _ _ (List.mem_append_right _ hmem)]
    · have hleaf := trie_of_le hle
      exact trie_cons_of_leaf hleaf (hothers _ _ (hleaf ▸ List.mem_singleton_self _))

/-! ## Buckets as leaves -/

section Bucket

variable {nodes : List Node} {b : Bucket}

theorem Bucket.toLeaf_contains_iff {key : Key} : b.toLeaf.Contains key ↔ b.contains key = true := Bucket.contains_iff.symm

/-- The nodes of a block are counted by their ids. -/
theorem Bucket.IsBlock.population_eq (h : b.IsBlock height) (nodes : List Node) :
    b.population nodes = idsWithin (nodes.map Node.id) height b.min.toNat := by
  have hmax := h.2
  have hpos := Nat.two_pow_pos height
  unfold Bucket.population idsWithin
  rw [List.countP_map]
  refine List.countP_congr ?_
  intro n _
  rw [Function.comp_apply, decide_eq_true_eq, Bucket.contains_iff]
  omega

/-- A bucket that counts its nodes and has room for them is the trie under it. -/
theorem Bucket.Fits.trie_eq (h : b.Fits nodes height) : trie (nodes.map Node.id) height b.min.toNat = [b.toLeaf] := by
  have hcount := h.counted
  rw [h.block.population_eq] at hcount
  have hmax : b.max.toNat = b.min.toNat + 2 ^ height - 1 := by
    have := h.block.2
    omega
  rw [trie_of_le (by rw [← hcount]; exact h.bounded), leafAt, ← hcount, ← hmax]
  rfl

/-- The bucket of an id gives way, the others stay. -/
theorem flatMap_giveWay {id : Key} {others : List Leaf} {before behind : List Bucket}
    (hother : ∀ c, c ∈ before ∨ c ∈ behind → c.contains id = false) (hid : b.contains id = true) :
    ((before ++ b :: behind).map Bucket.toLeaf).flatMap (Leaf.giveWay id others) =
      before.map Bucket.toLeaf ++ others ++ behind.map Bucket.toLeaf := by
  have hstay : ∀ bs : List Bucket, (∀ c ∈ bs, c.contains id = false) →
      (bs.map Bucket.toLeaf).flatMap (Leaf.giveWay id others) = bs.map Bucket.toLeaf := by
    intro bs hbs
    refine (List.flatMap_congr fun e he => ?_).trans (List.flatMap_singleton' _)
    obtain ⟨c, hc, rfl⟩ := List.mem_map.1 he
    refine if_neg ?_
    intro hin
    rw [Bucket.toLeaf_contains_iff, hbs c hc] at hin
    cases hin
  rw [List.map_append, List.map_cons, List.flatMap_append, List.flatMap_cons, hstay before fun c hc => hother c (Or.inl hc),
    hstay behind fun c hc => hother c (Or.inr hc), Leaf.giveWay, if_pos (Bucket.toLeaf_contains_iff.2 hid), List.append_assoc]

/-- The ends of a block tell its height. -/
theorem Bucket.IsBlock.leafAt_eq {ids : List Key} {height' low : Nat} (h : b.IsBlock height)
    (heq : b.toLeaf = leafAt ids height' low) : height' = height ∧ low = b.min.toNat := by
  obtain ⟨hmin, hmax, -⟩ := Leaf.mk.inj heq
  have hblock := h.2
  have hpos := Nat.two_pow_pos height'
  have hpow : 2 ^ height' = 2 ^ height := by omega
  exact ⟨(Nat.pow_right_inj (by omega)).1 hpow, hmin.symm⟩

/-- A full bucket would overflow with one node more. -/
theorem Bucket.Fits.lt_population_cons {node : Node} (h : b.Fits nodes height) (hid : b.contains node.id = true)
    (hfull : b.isFull = true) : 8 < b.population (node :: nodes) := by
  rw [Bucket.population_cons, h.count_eq hfull, if_pos hid]
  exact Nat.lt_succ_self _

/-- A block of more than eight nodes has the tries of its halves under it. -/
theorem Bucket.Halves.trie_eq {now : Int} {lower upper : Bucket} (h : b.Halves nodes now lower upper)
    (hb : b.IsBlock (height + 1)) {others : List Node} (hfull : 8 < b.population others) :
    trie (others.map Node.id) (height + 1) b.min.toNat =
      trie (others.map Node.id) height lower.min.toNat ++ trie (others.map Node.id) height upper.min.toNat := by
  have hlower := (h.isBlock hb).1.2
  rw [hb.population_eq] at hfull
  rw [trie_of_lt hfull, h.toNat_upper_min, hlower, h.lower_min]

/-- If every id is welcome, a descent ends with the node added and leaves the trie under the bucket that it started at. -/
theorem Descent.trie_eq {family : Family} {now : Int} {rule : SplitRule} {node : Node} {outcome : Outcome} {bs : List Bucket}
    {events : List Event} (h : Descent family nodes now rule node.id b outcome bs events) (hall : rule.acceptAll = true)
    (hnodes : Ascending nodes) (hb : b.Fits nodes height) (hid : b.contains node.id = true) :
    outcome = .added ∧ bs.map Bucket.toLeaf = trie ((node :: nodes).map Node.id) height b.min.toNat := by
  induction h generalizing height with
  | room hfull => exact ⟨rfl, (hb.increment hid hfull).trie_eq.symm⟩
  | refused hfull hrule =>
    unfold SplitRule.allows at hrule
    rw [hb.isSingleton_eq_false hnodes hfull, hall] at hrule
    cases hrule
  | @inLower b lower upper outcome bs events hfull hrule halves hin rest ih =>
    obtain ⟨height, rfl⟩ := hb.block.exists_height hrule
    obtain ⟨hlower, hupper⟩ := hb.halves halves
    obtain ⟨houtcome, hbs⟩ := ih hlower hin
    refine ⟨houtcome, ?_⟩
    rw [List.map_append, hbs, halves.trie_eq hb.block (hb.lt_population_cons hid hfull),
      (hupper.cons_of_not_contains (halves.not_upper_contains hin)).trie_eq]
    rfl
  | @inUpper b lower upper outcome bs events hfull hrule halves hin rest ih =>
    obtain ⟨height, rfl⟩ := hb.block.exists_height hrule
    obtain ⟨hlower, hupper⟩ := hb.halves halves
    obtain ⟨houtcome, hbs⟩ := ih hupper hin
    refine ⟨houtcome, ?_⟩
    rw [List.map_cons, hbs, halves.trie_eq hb.block (hb.lt_population_cons hid hfull),
      (hlower.cons_of_not_contains (halves.not_lower_contains hin)).trie_eq]
    rfl

end Bucket

/-! ## Directories -/

namespace Directory

variable {family : Family} {d : Directory family} {now : Int} {rule : SplitRule} {node : Node}

/-- The buckets of a directory are the leaves of the trie of its ids. -/
def Canonical (d : Directory family) : Prop :=
  d.buckets.items.map Bucket.toLeaf = trie (d.nodes.items.map Node.id) Key.bits 0

theorem canonical_empty (now : Int) : (empty now : Directory family).Canonical := by
  have hfits : (Bucket.whole now).Fits [] Key.bits := ⟨Bucket.isBlock_whole now, rfl, Nat.zero_le _⟩
  have htrie := hfits.trie_eq
  rw [show (Bucket.whole now).min.toNat = 0 from Octets.toNat_lowest] at htrie
  exact htrie.symm

/-- If every id is welcome, a new node is added, whatever the buckets. -/
theorem Sound.insert_added (hd : d.Sound) (hall : rule.acceptAll = true) (hnew : ¬d.nodes.Holds node.id) :
    (d.insert now rule node).outcome = .added := by
  obtain ⟨before, b, behind, height, outcome, bs, events, hb, hkey, hfits, hdescent, hresult⟩ :=
    hd.exists_descent hnew now rule
  rw [hresult]
  exact (hdescent.trie_eq hall hd.ascending hfits hkey).1

/-- If every id is welcome, the buckets are the leaves of the trie after an offer too. -/
theorem Canonical.insert (h : d.Canonical) (hd : d.Sound) (hall : rule.acceptAll = true) :
    (d.insert now rule node).state.Canonical := by
  by_cases hid : d.nodes.Holds node.id
  · rw [insert_of_holds hd.ascending hd.tiles hid]
    exact h
  · obtain ⟨before, b, behind, height, outcome, bs, events, hb, hkey, hfits, hdescent, hresult⟩ :=
      hd.exists_descent hid now rule
    obtain ⟨rfl, hbs⟩ := hdescent.trie_eq hall hd.ascending hfits hkey
    have hperm := (nodesAfter_perm hd.ascending hid .added).map Node.id
    rw [hresult]
    show (before ++ bs ++ behind).map Bucket.toLeaf = trie ((d.nodesAfter node .added).items.map Node.id) Key.bits 0
    rw [trie_perm hperm, offered, List.map_cons, List.map_append, List.map_append,
      ← flatMap_giveWay (fun c hc => not_contains_of_mem_other hd.tiles hb hkey hc) hkey, ← hb, h]
    refine (trie_cons fun height' low' hmem hcontains => ?_).symm
    -- the leaf of the id is the bucket that the descent started at
    rw [← h] at hmem
    obtain ⟨c, hc, heq⟩ := List.mem_map.1 hmem
    rw [← heq, Bucket.toLeaf_contains_iff] at hcontains
    obtain rfl := eq_of_contains hd.tiles hb hkey hc hcontains
    obtain ⟨rfl, rfl⟩ := hfits.block.leafAt_eq heq
    exact hbs

/-- A report about a node leaves buckets and trie as they are. -/
theorem Canonical.update {id : Key} {status : Status} {d' : Directory family} (h : d.Canonical) (hd : d.Sound)
    (hd' : d.update? id status now = some d') : d'.Canonical := by
  rw [update?_eq hd] at hd'
  split at hd'
  · obtain rfl := Option.some.inj hd'
    unfold Canonical
    rw [map_id_report]
    exact h
  · cases hd'

end Directory

/-! ## Runs -/

/-- If every id is welcome, the buckets of every session are the leaves of the tries of its ids. -/
theorem Session.run_canonical (config : Config) (hall : config.acceptAll = true) (ops : List Operation) (family : Family) :
    (((start config).run ops).table.directory family).Canonical := by
  refine (run_directory (P := fun d => d.Sound ∧ d.Canonical) config ?_ ?_ ?_ ops).2
  · exact fun now => ⟨Directory.sound_empty now, Directory.canonical_empty now⟩
  · exact fun d now node hfamily hd => ⟨hd.1.insert hfamily, hd.2.insert hd.1 hall⟩
  · exact fun d d' id status now hd h => ⟨hd.1.update h, hd.2.update hd.1 h⟩

/-- Directories whose buckets are the leaves of the tries of their ids have the same buckets if they hold the same ids. -/
theorem Directory.Canonical.map_toLeaf_eq {family : Family} {d other : Directory family} (h : d.Canonical)
    (hother : other.Canonical) (hd : d.Sound) (hd' : other.Sound) (hids : ∀ id, d.nodes.Holds id ↔ other.nodes.Holds id) :
    d.buckets.items.map Bucket.toLeaf = other.buckets.items.map Bucket.toLeaf := by
  have hperm : (d.nodes.items.map Node.id).Perm (other.nodes.items.map Node.id) := by
    refine (List.perm_ext_iff_of_nodup hd.ascending.nodup_ids hd'.ascending.nodup_ids).2 ?_
    intro id
    rw [List.mem_map, List.mem_map]
    exact hids id
  rw [h, hother, trie_perm hperm]

/-- If every id is welcome, a table that is not full adds each new node. -/
theorem Table.insert_outcome_of_acceptAll {t : Table} (hall : t.config.acceptAll = true) (node : Node)
    (hd : (t.directory node.family).Sound) (now : Int) :
    (t.insert now node).outcome =
      if t.config.maxNodes ≤ t.size then .tableFull
      else if (t.directory node.family).nodes.Holds node.id then .alreadyPresent
      else .added := by
  by_cases hfull : t.config.maxNodes ≤ t.size
  · rw [insert_of_full hfull, if_pos hfull]
  rw [insert_of_room (Nat.lt_of_not_le hfull), if_neg hfull]
  by_cases hid : (t.directory node.family).nodes.Holds node.id
  · rw [if_pos hid, Directory.insert_of_holds hd.ascending hd.tiles hid]
  · rw [if_neg hid]
    exact hd.insert_added hall hid

/-- If every id is welcome, only the limit and a known id keep a node from being added. -/
theorem Session.answer_insert_of_acceptAll {s : Session} (hall : s.table.config.acceptAll = true) {contact : Contact}
    (hd : (s.table.directory contact.family).Sound) (status : Status) (age : Int) :
    (s.step (.insert contact status age)).answer = .outcome
      (if s.table.config.maxNodes ≤ s.table.size then .tableFull
        else if (s.table.directory contact.family).nodes.Holds contact.id then .alreadyPresent
        else .added) :=
  congrArg Answer.outcome (Table.insert_outcome_of_acceptAll hall ⟨contact, status, s.now - age⟩ hd s.now)

/-- If every id is welcome, a node is added exactly if the table is not full and its id is new, and never refused for its bucket. -/
theorem Session.added_iff_of_acceptAll {s : Session} (hall : s.table.config.acceptAll = true) {contact : Contact}
    (hd : (s.table.directory contact.family).Sound) (status : Status) (age : Int) :
    ((s.step (.insert contact status age)).answer = .outcome .added ↔
      s.table.size < s.table.config.maxNodes ∧ ¬(s.table.directory contact.family).nodes.Holds contact.id) ∧
    (s.step (.insert contact status age)).answer ≠ .outcome .bucketFull := by
  rw [answer_insert_of_acceptAll hall hd]
  by_cases hfull : s.table.config.maxNodes ≤ s.table.size
  · rw [if_pos hfull]
    exact ⟨⟨nofun, fun h => absurd hfull (Nat.not_le.2 h.1)⟩, nofun⟩
  rw [if_neg hfull]
  by_cases hid : (s.table.directory contact.family).nodes.Holds contact.id
  · rw [if_pos hid]
    exact ⟨⟨nofun, fun h => absurd hid h.2⟩, nofun⟩
  · rw [if_neg hid]
    exact ⟨⟨fun _ => ⟨Nat.lt_of_not_le hfull, hid⟩, fun _ => rfl⟩, nofun⟩

/-- If every id is welcome, then after every run a node is added exactly if the table is not full and its id is new, and none is ever
refused for its bucket; the buckets of each family are the leaves of the trie of its ids; and so runs that lead to the same ids lead
to the same buckets, in whichever order the ids came. -/
theorem run_trie (ownId : Key) (maxNodes closestCount : Nat) (ops : List Operation) :
    let start := Session.start { ownId, acceptAll := true, maxNodes, closestCount }
    let s := start.run ops
    (∀ contact status age,
      ((s.step (.insert contact status age)).answer = .outcome .added ↔
        s.table.size < maxNodes ∧ ¬(s.table.directory contact.family).nodes.Holds contact.id) ∧
      (s.step (.insert contact status age)).answer ≠ .outcome .bucketFull) ∧
    (∀ family, (s.table.buckets family).map Bucket.toLeaf = trie ((s.table.nodes family).map Node.id) Key.bits 0) ∧
    ∀ others family,
      (∀ id, (s.table.directory family).nodes.Holds id ↔ ((start.run others).table.directory family).nodes.Holds id) →
      (s.table.buckets family).map Bucket.toLeaf = ((start.run others).table.buckets family).map Bucket.toLeaf := by
  intro start s
  have hsound := Session.run_sound { ownId, acceptAll := true, maxNodes, closestCount }
  have hcanonical := Session.run_canonical { ownId, acceptAll := true, maxNodes, closestCount } rfl
  have hconfig : s.table.config = { ownId, acceptAll := true, maxNodes, closestCount } := Session.config_run _ ops
  refine ⟨?_, hcanonical ops, ?_⟩
  · intro contact status age
    have hanswer := Session.added_iff_of_acceptAll (by rw [hconfig]) (hsound ops contact.family) status age
    rwa [show s.table.config.maxNodes = maxNodes from congrArg Config.maxNodes hconfig] at hanswer
  · intro others family hids
    exact (hcanonical ops family).map_toLeaf_eq (hcanonical others family) (hsound ops family) (hsound others family) hids

/-- Nine ids, too many for one bucket, make the same buckets in either order. -/
theorem run_trie_reversed :
    let start := Session.start { ownId := Key.lowest, acceptAll := true, maxNodes := 20, closestCount := 16 }
    let offers := (List.range 9).map fun k => Operation.insert ⟨Key.ofNat (k * 2 ^ 150), .v4 (Octets.lowest 4) 0⟩ .good 0
    ((start.run offers).table.buckets .v4).map Bucket.toLeaf =
      ((start.run offers.reverse).table.buckets .v4).map Bucket.toLeaf := by
  intro start offers
  have hnodes : ((start.run offers).table.directory .v4).nodes = ((start.run offers.reverse).table.directory .v4).nodes := by
    decide +kernel
  refine (run_trie Key.lowest 20 16 offers).2.2 offers.reverse .v4 ?_
  intro id
  exact Iff.of_eq (congrArg (NodeList.Holds · id) hnodes)

end Kademlia
