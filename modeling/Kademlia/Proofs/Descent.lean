import Kademlia.Directory
import Kademlia.Proofs.Block

/-!
# What an offer does to a directory

The node list of a directory is ascending and its buckets tile the key space. Then every search for the bucket of a key meets it, a
split puts the two halves of a bucket in its place, and the offer of a node whose id is new is a `Descent`: as long as the bucket of
the id is full and may be split it gives way to its halves, and the offer goes on at the half that holds the id, until there is room
or the node is refused. All that the offer changes is the node list, by the one node, and the bucket it started at, by the buckets
that the descent leaves.
-/

namespace Kademlia

namespace Directory

variable {family : Family} {d : Directory family} {before behind : List Bucket} {b : Bucket} {now : Int}

/-! ## Looking for a bucket -/

section Bucket

variable (htiles : Tiles 0 keyCount d.buckets.items) (hb : d.buckets.items = before ++ b :: behind) {key : Key}
  (hkey : b.contains key = true)
include htiles hb hkey

theorem locate_before : ∀ c ∈ before, c.locate key = .lt := by
  rw [hb, Tiles.middle] at htiles
  have := Bucket.contains_iff.1 hkey
  exact htiles.1.locate_lt (by omega)

theorem locate_behind : ∀ c ∈ behind, c.locate key = .gt := by
  rw [hb, Tiles.middle] at htiles
  have := Bucket.contains_iff.1 hkey
  exact htiles.2.2.locate_gt (by omega)

/-- The bucket found for a key is the one that contains it. -/
theorem bucketOf?_eq : d.bucketOf? key = some b :=
  SortedList.getBy?_met hb (locate_before htiles hb hkey) (Bucket.locate_eq_iff.2 hkey) (locate_behind htiles hb hkey)

/-- A change of the bucket of a key leaves the other buckets alone. -/
theorem updateBucket_eq (g : Bucket → Bucket) :
    d.buckets.updateBy? (·.locate key) g = some (b, ⟨before ++ g b :: behind⟩) :=
  SortedList.updateBy?_met g hb (locate_before htiles hb hkey) (Bucket.locate_eq_iff.2 hkey)
    (locate_behind htiles hb hkey)

end Bucket

/-- Every key has a bucket. -/
theorem exists_bucket (htiles : Tiles 0 keyCount d.buckets.items) (key : Key) :
    ∃ before b behind, d.buckets.items = before ++ b :: behind ∧ b.contains key = true :=
  htiles.exists_contains (Nat.zero_le _) (key_lt key)

/-! ## Splitting a bucket -/

/-- The positions of the three keys count the nodes from `min` to `mid` and those behind `mid` up to `max`. -/
theorem countHalves_eq (h : Ascending d.nodes.items) {min mid max : Key} (hmin : min ≤ mid) (hmax : mid ≤ max) :
    d.countHalves min mid max =
      (d.nodes.items.countP fun n => min ≤ n.id && n.id ≤ mid, d.nodes.items.countP fun n => mid < n.id && n.id ≤ max) := by
  unfold countHalves
  rw [NodeList.upperBound_eq_upperBound_add h hmax, NodeList.upperBound_eq_index_add h hmin]
  simp only [Nat.add_sub_cancel_left]

/-- The lower half of a bucket takes its place. -/
theorem shrink?_eq (htiles : Tiles 0 keyCount d.buckets.items) (hb : d.buckets.items = before ++ b :: behind) (now : Int)
    (mid : Key) (count : Nat) :
    d.shrink? now b mid count = some { d with buckets := ⟨before ++ ⟨b.min, mid, count, now⟩ :: behind⟩ } := by
  have hle := (htiles.bounds (hb ▸ List.mem_append_right before List.mem_cons_self)).2.1
  have hmin : b.contains b.min = true := Bucket.contains_iff.2 ⟨Nat.le_refl _, hle⟩
  have hcut : cut now b mid count b = (true, ⟨b.min, mid, count, now⟩) := if_neg (by simp)
  unfold shrink?
  rw [SortedList.updateWith?_eq, updateBucket_eq htiles hb hmin, Option.map_some]
  simp only [hcut]

/-- The upper half goes in behind the lower one, into the gap that the bucket left. -/
theorem addUpper_eq {buckets : BucketList} {lower upper : Bucket} {stop : Nat}
    (hb : buckets.items = (before ++ [lower]) ++ behind) (hbelow : Tiles 0 upper.min.toNat (before ++ [lower]))
    (hupper : upper.min.toNat ≤ upper.max.toNat) (habove : Tiles (upper.max.toNat + 1) stop behind) :
    buckets.addIf upper (admits lower.max upper.min) = (⟨before ++ lower :: upper :: behind⟩, true) := by
  obtain ⟨hbefore, hlower, hstop⟩ := Tiles.middle.1 hbelow
  have hstop' : lower.max.toNat + 1 = upper.min.toNat := hstop
  have huncovered : buckets.getBy? (·.locate upper.min) = none :=
    SortedList.getBy?_gap hb (hbelow.locate_lt (Nat.le_refl _)) (habove.locate_gt (by omega))
  have hends : buckets.getBy? (·.locate lower.max) = some lower := by
    refine SortedList.getBy?_met (by rw [hb, List.append_assoc]; rfl) (hbefore.locate_lt hlower) ?_
      (habove.locate_gt (by omega))
    exact Bucket.locate_eq_iff.2 (Bucket.contains_iff.2 ⟨hlower, Nat.le_refl _⟩)
  unfold SortedList.addIf admits
  rw [huncovered, hends]
  simp only [Option.isNone_none, Option.any_some, decide_true, Bool.and_self, if_true]
  rw [SortedList.add_gap upper hb (hbelow.order_lt (Nat.le_refl _)) (habove.order_gt hupper (by omega)), List.append_assoc]
  rfl

/-- A bucket of more than one key has halves, and the split counts their nodes. -/
theorem exists_halves (h : Ascending d.nodes.items) (hne : b.min.toNat < b.max.toNat) (now : Int) :
    ∃ lower upper, b.Halves d.nodes.items now lower upper ∧
      d.countHalves b.min lower.max b.max = (lower.count, upper.count) := by
  have hmid := Octets.toNat_midpoint b.min b.max
  obtain ⟨upperMin, hnext⟩ : ∃ upperMin, (b.min.midpoint b.max).succ? = some upperMin := by
    refine Option.ne_none_iff_exists'.1 ?_
    intro hnone
    have := Octets.succ?_eq_none_iff.1 hnone
    have := b.max.toNat_lt
    omega
  have hnext' := Octets.succ?_eq_some_iff.1 hnext
  have hle : b.min ≤ b.min.midpoint b.max ∧ b.min.midpoint b.max ≤ b.max := by
    rw [Octets.le_iff, Octets.le_iff]
    omega
  have hcount := countHalves_eq h hle.1 hle.2
  refine ⟨⟨b.min, b.min.midpoint b.max, _, now⟩, ⟨upperMin, b.max, _, now⟩, ⟨rfl, rfl, hnext, rfl, rfl, ?_, rfl, rfl⟩, hcount⟩
  refine List.countP_congr ?_
  intro n _
  rw [Bucket.contains_iff, Bool.and_eq_true, decide_eq_true_eq, decide_eq_true_eq, Octets.lt_iff, Octets.le_iff]
  simp only [hnext']
  omega

/-- A split puts the two halves of a bucket of more than one key in its place. -/
theorem split_eq (h : Ascending d.nodes.items) (htiles : Tiles 0 keyCount d.buckets.items)
    (hb : d.buckets.items = before ++ b :: behind) (hne : b.min.toNat < b.max.toNat) (now : Int) :
    ∃ lower upper, b.Halves d.nodes.items now lower upper ∧
      d.split now b = ⟨true, { d with buckets := ⟨before ++ lower :: upper :: behind⟩ },
        [.bucketSplit family lower.max lower.count upper.count]⟩ := by
  obtain ⟨lower, upper, hhalves, hcount⟩ := exists_halves h hne now
  refine ⟨lower, upper, hhalves, ?_⟩
  have hhalf := hhalves.tiles hne
  have hshrink := shrink?_eq htiles hb now lower.max lower.count
  have hlower : (⟨b.min, lower.max, lower.count, now⟩ : Bucket) = lower := by
    rw [← hhalves.lower_min, ← hhalves.lower_changed]
  have hupper : (⟨upper.min, b.max, upper.count, now⟩ : Bucket) = upper := by
    rw [← hhalves.upper_max, ← hhalves.upper_changed]
  rw [hb, Tiles.middle] at htiles
  have hbelow : Tiles 0 upper.min.toNat (before ++ [lower]) := by
    rw [Tiles.append]
    exact ⟨b.min.toNat, htiles.1, hhalf.1, hhalf.2.1, hhalf.2.2.1.symm⟩
  have habove : Tiles (upper.max.toNat + 1) keyCount behind := by
    rw [hhalves.upper_max]
    exact htiles.2.2
  have hitems : (⟨before ++ lower :: behind⟩ : BucketList).items = (before ++ [lower]) ++ behind := by simp
  have hadd := addUpper_eq hitems hbelow hhalf.2.2.2.1 habove
  unfold split
  rw [hlower] at hshrink
  simp only [hcount, ← hhalves.lower_max, hhalves.upper_min, hshrink, hupper, hadd]

end Directory

/-! ## Descents -/

theorem Bucket.isFull_iff {b : Bucket} : b.isFull = true ↔ Bucket.capacity ≤ b.count := decide_eq_true_iff

/-- How the offer of a node with a new id goes on at the bucket of this id: with which outcome, which buckets take the place of this
one, and what is reported. -/
inductive Descent (family : Family) (nodes : List Node) (now : Int) (rule : SplitRule) (id : Key) :
    Bucket → Outcome → List Bucket → List Event → Prop
  | room {b : Bucket} (hfull : b.isFull = false) : Descent family nodes now rule id b .added [b.increment now] []
  | refused {b : Bucket} (hfull : b.isFull = true) (hrule : rule.allows b = false) :
      Descent family nodes now rule id b .bucketFull [b] [.bucketFull family b.min b.max id]
  | inLower {b lower upper : Bucket} {outcome : Outcome} {bs : List Bucket} {events : List Event} (hfull : b.isFull = true)
      (hrule : rule.allows b = true) (halves : b.Halves nodes now lower upper) (hid : lower.contains id = true)
      (rest : Descent family nodes now rule id lower outcome bs events) :
      Descent family nodes now rule id b outcome (bs ++ [upper])
        (.bucketSplit family lower.max lower.count upper.count :: events)
  | inUpper {b lower upper : Bucket} {outcome : Outcome} {bs : List Bucket} {events : List Event} (hfull : b.isFull = true)
      (hrule : rule.allows b = true) (halves : b.Halves nodes now lower upper) (hid : upper.contains id = true)
      (rest : Descent family nodes now rule id upper outcome bs events) :
      Descent family nodes now rule id b outcome (lower :: bs)
        (.bucketSplit family lower.max lower.count upper.count :: events)

/-- A bucket that may be split has more than one key. -/
theorem SplitRule.not_isSingleton {rule : SplitRule} {b : Bucket} (h : rule.allows b = true) : b.isSingleton = false := by
  unfold SplitRule.allows at h
  rw [Bool.and_eq_true, Bool.not_eq_true'] at h
  exact h.1

/-- A block that may be split has a free bit. -/
theorem Bucket.IsBlock.exists_height {b : Bucket} {height : Nat} {rule : SplitRule} (h : b.IsBlock height)
    (hrule : rule.allows b = true) : ∃ rest, height = rest + 1 := by
  refine Nat.exists_eq_succ_of_ne_zero ?_
  intro hzero
  have hone := h.isSingleton_iff.2 hzero
  rw [SplitRule.not_isSingleton hrule] at hone
  cases hone

namespace Directory

variable {family : Family} {d : Directory family} {before behind : List Bucket} {b : Bucket} {now : Int} {rule : SplitRule}
  {node : Node}

/-- The nodes after an offer with this outcome. -/
def nodesAfter (d : Directory family) (node : Node) : Outcome → NodeList
  | .added => (d.nodes.add node).1
  | _ => d.nodes

/-- A new node goes into a bucket that has room. -/
theorem place_eq (h : Ascending d.nodes.items) (htiles : Tiles 0 keyCount d.buckets.items)
    (hb : d.buckets.items = before ++ b :: behind) (hid : b.contains node.id = true) (hnew : ¬d.nodes.Holds node.id) :
    d.place now node = ⟨.added, ⟨(d.nodes.add node).1, ⟨before ++ b.increment now :: behind⟩⟩, []⟩ := by
  unfold place
  rw [NodeList.add_of_not_holds h hnew, updateBucket_eq htiles hb hid]

/-- A known node is not placed again. -/
theorem place_of_holds (h : Ascending d.nodes.items) (hid : d.nodes.Holds node.id) :
    d.place now node = ⟨.alreadyPresent, d, []⟩ := by
  unfold place
  rw [NodeList.add_of_holds h hid]

/-- What a look at the bucket of a known id comes to. -/
theorem look_of_holds (h : Ascending d.nodes.items) (htiles : Tiles 0 keyCount d.buckets.items)
    (hid : d.nodes.Holds node.id) : d.look now rule node = .settled ⟨.alreadyPresent, d, []⟩ := by
  obtain ⟨before, b, behind, hb, hkey⟩ := exists_bucket htiles node.id
  unfold look
  rw [bucketOf?_eq htiles hb hkey]
  cases hfull : b.isFull with
  | false => simp only [hfull, Bool.not_false, if_true, place_of_holds h hid]
  | true =>
    simp only [hfull, Bool.not_true, Bool.false_eq_true, if_false, (NodeList.isFound_positionOfId h node.id).2 hid, if_true]

section Look

variable (h : Ascending d.nodes.items) (htiles : Tiles 0 keyCount d.buckets.items)
  (hb : d.buckets.items = before ++ b :: behind) (hid : b.contains node.id = true) (hnew : ¬d.nodes.Holds node.id)
include h htiles hb hid hnew

/-- A look at the bucket of a new id places the node if there is room. -/
theorem look_room (hfull : b.isFull = false) :
    d.look now rule node =
      .settled ⟨.added, ⟨(d.nodes.add node).1, ⟨before ++ b.increment now :: behind⟩⟩, []⟩ := by
  unfold look
  rw [bucketOf?_eq htiles hb hid]
  simp only [hfull, Bool.not_false, if_true, place_eq h htiles hb hid hnew]

/-- A look at a full bucket refuses a new id or splits the bucket, as the rule says. -/
theorem look_full (hfull : b.isFull = true) :
    d.look now rule node =
      if rule.allows b then .halved (d.split now b)
      else .settled ⟨.bucketFull, d, [.bucketFull family b.min b.max node.id]⟩ := by
  have hfound : (d.nodes.positionOfId node.id).isFound = false :=
    Bool.eq_false_iff.2 fun hc => hnew ((NodeList.isFound_positionOfId h node.id).1 hc)
  unfold look
  rw [bucketOf?_eq htiles hb hid]
  simp only [hfull, hfound, Bool.not_true, Bool.false_eq_true, if_false]

/-- A look at a full bucket that may be split puts its halves in its place. -/
theorem look_split {height : Nat} (hblock : b.IsBlock (height + 1)) (hfull : b.isFull = true) (hrule : rule.allows b = true) :
    ∃ lower upper, b.Halves d.nodes.items now lower upper ∧ Tiles 0 keyCount (before ++ lower :: upper :: behind) ∧
      d.look now rule node = .halved ⟨true, { d with buckets := ⟨before ++ lower :: upper :: behind⟩ },
        [.bucketSplit family lower.max lower.count upper.count]⟩ := by
  obtain ⟨lower, upper, hhalves, hsplit⟩ := split_eq h htiles hb hblock.min_lt_max now
  refine ⟨lower, upper, hhalves, ?_, ?_⟩
  · rw [hb] at htiles
    have hreplace := htiles.replace (hhalves.tiles hblock.min_lt_max)
    rwa [List.append_assoc] at hreplace
  · rw [look_full h htiles hb hid hnew hfull, if_pos hrule, hsplit]

end Look

/-- The offer of a new node is a descent from the bucket of its id, if there are more looks than the bucket has free bits. -/
theorem insertWithin_eq {height looks : Nat} (hlooks : height < looks) (h : Ascending d.nodes.items)
    (htiles : Tiles 0 keyCount d.buckets.items) (hb : d.buckets.items = before ++ b :: behind) (hblock : b.IsBlock height)
    (hid : b.contains node.id = true) (hnew : ¬d.nodes.Holds node.id) :
    ∃ outcome bs events, Descent family d.nodes.items now rule node.id b outcome bs events ∧
      insertWithin now rule node looks d = ⟨outcome, ⟨d.nodesAfter node outcome, ⟨before ++ bs ++ behind⟩⟩, events⟩ := by
  -- each look either settles the offer or halves the bucket of the id, which costs one free bit
  induction looks generalizing height d before b behind with
  | zero => omega
  | succ looks ih =>
    unfold insertWithin
    cases hfull : b.isFull with
    | false =>
      refine ⟨.added, [b.increment now], [], .room hfull, ?_⟩
      rw [look_room h htiles hb hid hnew hfull]
      simp [nodesAfter]
    | true =>
      cases hrule : rule.allows b with
      | false =>
        refine ⟨.bucketFull, [b], _, .refused hfull hrule, ?_⟩
        rw [look_full h htiles hb hid hnew hfull, hrule]
        simp [nodesAfter, ← hb]
      | true =>
        obtain ⟨height, rfl⟩ := hblock.exists_height hrule
        obtain ⟨lower, upper, hhalves, htiles', hlook⟩ := look_split h htiles hb hid hnew hblock hfull hrule
        obtain ⟨hlower, hupper⟩ := hhalves.isBlock hblock
        rw [hlook]
        generalize hd' : ({ d with buckets := ⟨before ++ lower :: upper :: behind⟩ } : Directory family) = d'
        have hnodes : d'.nodes = d.nodes := by rw [← hd']
        have hitems : d'.buckets.items = before ++ lower :: upper :: behind := by rw [← hd']
        have hitems' : d'.buckets.items = (before ++ [lower]) ++ upper :: behind := by
          rw [hitems, List.append_assoc]
          rfl
        rw [← hnodes] at h hnew hhalves ⊢
        rcases hhalves.contains_cases hid with ⟨hin, -⟩ | ⟨-, hin⟩
        · obtain ⟨outcome, bs, events, hdescent, hrest⟩ := ih (by omega) h (hitems ▸ htiles') hitems hlower hin hnew
          refine ⟨outcome, bs ++ [upper], _, .inLower hfull hrule hhalves hin hdescent, ?_⟩
          simp only [hrest]
          simp [nodesAfter, hnodes]
        · obtain ⟨outcome, bs, events, hdescent, hrest⟩ := ih (by omega) h (hitems ▸ htiles') hitems' hupper hin hnew
          refine ⟨outcome, lower :: bs, _, .inUpper hfull hrule hhalves hin hdescent, ?_⟩
          simp only [hrest]
          simp [nodesAfter, hnodes]

/-! ## Offers -/

/-- The looks of an offer are more than the free bits of any bucket. -/
theorem height_lt_maxLooks {height : Nat} (hblock : b.IsBlock height) : height < maxLooks :=
  Nat.lt_of_le_of_lt hblock.height_le (by decide)

/-- The offer of a known node changes nothing. -/
theorem insert_of_holds (h : Ascending d.nodes.items) (htiles : Tiles 0 keyCount d.buckets.items)
    (hid : d.nodes.Holds node.id) : d.insert now rule node = ⟨.alreadyPresent, d, []⟩ := by
  unfold insert
  obtain ⟨looks, hlooks⟩ : ∃ looks, maxLooks = looks + 1 := ⟨319, rfl⟩
  rw [hlooks, insertWithin, look_of_holds h htiles hid]

end Directory

end Kademlia
