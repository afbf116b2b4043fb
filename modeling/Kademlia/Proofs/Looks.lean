import Kademlia.Proofs.Refusal

/-!
# The looks of an offer

An offer looks at the bucket of its id again and again until the matter is settled, and each operation on the two lists of a directory
has a way out for the case that they do not agree. None of these is ever taken (`run_visited`): every look finds a bucket, every split
puts both halves in place, and the offer is settled after at most 157 splits, long before it would give up. The bound comes from the
pigeonhole principle: a bucket that is split is full and does not hold the new id, so it has more than eight keys and each half at
least eight. Hence every bucket is `Wide`, and that a bucket of a single key is never split decides nothing.
-/

namespace Kademlia

/-! ## Wide buckets -/

/-- A bucket of at least as many keys as it has room for nodes. -/
def Bucket.Wide (b : Bucket) : Prop := b.min.toNat + Bucket.capacity ≤ b.max.toNat + 1

namespace Bucket

variable {b : Bucket} {height : Nat}

/-- A block is wide if it has three free bits. -/
theorem IsBlock.wide_iff (h : b.IsBlock height) : b.Wide ↔ 3 ≤ height := by
  have hpow : 2 ^ 3 ≤ 2 ^ height ↔ 3 ≤ height := Nat.pow_le_pow_iff_right (by omega)
  rw [Wide, h.2, Nat.add_le_add_iff_left, ← hpow]
  rfl

/-- A wide bucket has more than one key, so only the own id and the rule decide whether it may be split. -/
theorem Wide.allows_eq (h : b.Wide) (rule : SplitRule) :
    rule.allows b = (rule.acceptAll || b.contains rule.ownId) := by
  have hsingle : b.isSingleton = false := by
    rw [Bool.eq_false_iff, ne_eq, isSingleton_iff]
    intro heq
    rw [Wide, heq, show capacity = 8 from rfl] at h
    omega
  rw [SplitRule.allows, hsingle, Bool.not_false, Bool.true_and]

/-- A block with a key that is not among its nodes has more keys than nodes. -/
theorem IsBlock.population_lt (h : b.IsBlock height) {l : NodeList} (hl : Ascending l.items) {node : Node}
    (hnew : ¬l.Holds node.id) (hid : b.contains node.id = true) : b.population l.items < 2 ^ height := by
  have hle := h.population_le (NodeList.add_ascending hl hnew)
  rw [b.population_perm (NodeList.add_perm hl hnew), population_cons, if_pos hid] at hle
  exact hle

/-- A full bucket without a new id has four free bits. -/
theorem Fits.four_le {l : NodeList} (h : b.Fits l.items height) (hl : Ascending l.items) {node : Node}
    (hnew : ¬l.Holds node.id) (hid : b.contains node.id = true) (hfull : b.isFull = true) : 4 ≤ height := by
  have hlt := h.block.population_lt hl hnew hid
  rw [h.count_eq hfull, show capacity = 2 ^ 3 from rfl] at hlt
  exact (Nat.pow_lt_pow_iff_right (by omega)).1 hlt

end Bucket

/-- The halves of a full bucket without a new id are wide. -/
theorem Bucket.Fits.wide_halves {b lower upper : Bucket} {height : Nat} {now : Int} {l : NodeList}
    (h : b.Fits l.items (height + 1)) (hl : Ascending l.items) {node : Node} (hnew : ¬l.Holds node.id)
    (hid : b.contains node.id = true) (hfull : b.isFull = true) (hhalves : b.Halves l.items now lower upper) :
    lower.Wide ∧ upper.Wide := by
  obtain ⟨hlower, hupper⟩ := hhalves.isBlock h.block
  have hbits : 3 ≤ height := Nat.le_of_succ_le_succ (h.four_le hl hnew hid hfull)
  exact ⟨hlower.wide_iff.2 hbits, hupper.wide_iff.2 hbits⟩

namespace Directory

variable {family : Family} {d : Directory family} {now : Int} {rule : SplitRule} {node : Node}

/-- Every bucket is wide. -/
def Wide (d : Directory family) : Prop := ∀ b ∈ d.buckets.items, b.Wide

theorem wide_empty (now : Int) : (empty now : Directory family).Wide :=
  forall_buckets_empty now ((Bucket.isBlock_whole now).wide_iff.2 (by decide))

/-- An offer leaves the buckets wide. -/
theorem Wide.insert (hwide : d.Wide) (hd : d.Sound) : (d.insert now rule node).state.Wide :=
  hd.forall_buckets_insert (fun _ hc => hc)
    (fun hnew hfits hid hfull _ hhalves _ => hfits.wide_halves hd.ascending hnew hid hfull hhalves) hwide

theorem Wide.update (hwide : d.Wide) (hd : d.Sound) {id : Key} {status : Status} {d' : Directory family}
    (h : d.update? id status now = some d') : d'.Wide := by
  unfold Wide
  rw [hd.buckets_update h]
  exact hwide

/-! ## Splits -/

/-- Every step of splitting a bucket goes through: the key behind the middle exists, the bucket is still there to be cut down to its
lower half, and the upper half is let in. -/
def Splits (d : Directory family) (now : Int) (b : Bucket) : Prop :=
  let mid := b.min.midpoint b.max
  let counts := d.countHalves b.min mid b.max
  ∃ upperMin halved buckets, mid.succ? = some upperMin ∧ d.shrink? now b mid counts.1 = some halved ∧
    halved.buckets.addIf ⟨upperMin, b.max, counts.2, now⟩ (admits mid upperMin) = (buckets, true)

/-- A split succeeds if every step goes through. -/
theorem splits_iff {b : Bucket} : d.Splits now b ↔ (d.split now b).succeeded = true := by
  unfold Splits split
  constructor
  · rintro ⟨upperMin, halved, buckets, hnext, hshrink, hadd⟩
    simp only [hnext, hshrink, hadd]
  · intro h
    dsimp only at h
    split at h
    · cases h
    · rename_i upperMin hnext
      split at h
      · cases h
      · rename_i halved hshrink
        split at h
        · rename_i buckets hadd
          exact ⟨upperMin, halved, buckets, hnext, hshrink, hadd⟩
        · cases h

/-! ## Looks -/

/-- The directories that an offer looks at one after the other, with so many looks. -/
def visited (now : Int) (rule : SplitRule) (node : Node) : Nat → Directory family → List (Directory family)
  | 0, _ => []
  | looks + 1, d =>
    match d.look now rule node with
    | .settled _ => [d]
    | .missing => d :: visited now rule node looks d
    | .halved split => d :: visited now rule node looks split.directory

/-- The last directory of a path is the last of the rest if it is not the first. -/
theorem getLast?_of_cons {path : List (Directory family)} {last : Directory family} (h : (d :: path).getLast? = some last)
    (hne : last ≠ d) : path.getLast? = some last := by
  cases path with
  | nil => exact absurd (Option.some.inj h).symm hne
  | cons e rest => rwa [List.getLast?_cons_cons] at h

/-- The last look settles an offer. -/
theorem insertWithin_of_visited {looks : Nat} {last : Directory family} {insertion : Insertion (Directory family)}
    (hlast : (visited now rule node looks d).getLast? = some last) (hlook : last.look now rule node = .settled insertion) :
    (insertWithin now rule node looks d).outcome = insertion.outcome ∧
      (insertWithin now rule node looks d).state = insertion.state := by
  induction looks generalizing d with
  | zero => cases hlast
  | succ looks ih =>
    unfold visited at hlast
    unfold insertWithin
    -- a directory whose look settles nothing is not the last one
    have hne : (∀ first, d.look now rule node ≠ .settled first) → last ≠ d := by
      rintro hunsettled rfl
      exact hunsettled insertion hlook
    cases hd : d.look now rule node with
    | settled first =>
      simp only [hd, List.getLast?_singleton, Option.some.injEq] at hlast
      rw [hlast, hlook] at hd
      obtain rfl := Look.settled.inj hd
      exact ⟨rfl, rfl⟩
    | missing =>
      simp only [hd] at hlast hne
      exact ih (getLast?_of_cons hlast (hne (by simp)))
    | halved split =>
      simp only [hd] at hlast hne
      exact ih (getLast?_of_cons hlast (hne (by simp)))

/-- A look at a bucket that gives way to its two halves, which is all that is reported. -/
def Halving (d : Directory family) (now : Int) (rule : SplitRule) (node : Node) (b : Bucket) : Prop :=
  d.look now rule node = .halved (d.split now b) ∧ d.Splits now b ∧
    ∃ mid lower upper, (d.split now b).events = [.bucketSplit family mid lower upper]

/-- A look that settles an offer and does not miss the bucket to count the node in. -/
def Settling (d : Directory family) (now : Int) (rule : SplitRule) (node : Node) (insertion : Insertion (Directory family)) :
    Prop :=
  d.look now rule node = .settled insertion ∧ ∀ id, Event.bucketMoved family id ∉ insertion.events

/-- A sound directory of wide buckets that does not know an id whose bucket has so many free bits. -/
structure Awaits (d : Directory family) (id : Key) (height : Nat) : Prop where
  sound : d.Sound
  wide : d.Wide
  new : ¬d.nodes.Holds id
  bucket : ∃ b ∈ d.buckets.items, b.contains id = true ∧ b.Fits d.nodes.items height

/-- The halves of a full bucket may take its place. -/
theorem Sound.halve {before behind : List Bucket} {b lower upper : Bucket} {height : Nat} (hd : d.Sound)
    (hb : d.buckets.items = before ++ b :: behind) (hfits : b.Fits d.nodes.items (height + 1))
    (hhalves : b.Halves d.nodes.items now lower upper) :
    ({ d with buckets := ⟨before ++ lower :: upper :: behind⟩ } : Directory family).Sound := by
  obtain ⟨hlower, hupper⟩ := hfits.halves hhalves
  have htiles := hd.tiles
  have hall : ∀ c ∈ before ++ b :: behind, ∃ free, c.Fits d.nodes.items free := hb ▸ hd.fits
  rw [hb] at htiles
  rw [List.forall_mem_append, List.forall_mem_cons] at hall
  refine ⟨hd.ascending, hd.ofFamily, ?_, ?_⟩
  · have hreplace := htiles.replace (hhalves.tiles hfits.block.min_lt_max)
    rwa [List.append_assoc] at hreplace
  · refine List.forall_mem_append.2 ⟨hall.1, List.forall_mem_cons.2 ⟨⟨height, hlower⟩, ?_⟩⟩
    exact List.forall_mem_cons.2 ⟨⟨height, hupper⟩, hall.2.2⟩

/-- The halves of a full bucket await the id that the bucket does not know. -/
theorem Awaits.halve {before behind : List Bucket} {b lower upper : Bucket} {height : Nat} (h : d.Awaits node.id (height + 1))
    (hb : d.buckets.items = before ++ b :: behind) (hid : b.contains node.id = true) (hfits : b.Fits d.nodes.items (height + 1))
    (hfull : b.isFull = true) (hhalves : b.Halves d.nodes.items now lower upper) :
    ({ d with buckets := ⟨before ++ lower :: upper :: behind⟩ } : Directory family).Awaits node.id height := by
  obtain ⟨hlower, hupper⟩ := hfits.halves hhalves
  obtain ⟨hwideLower, hwideUpper⟩ := hfits.wide_halves h.sound.ascending h.new hid hfull hhalves
  have hall : ∀ c ∈ before ++ b :: behind, c.Wide := hb ▸ h.wide
  rw [List.forall_mem_append, List.forall_mem_cons] at hall
  refine ⟨h.sound.halve hb hfits hhalves, ?_, h.new, ?_⟩
  · refine List.forall_mem_append.2 ⟨hall.1, List.forall_mem_cons.2 ⟨hwideLower, ?_⟩⟩
    exact List.forall_mem_cons.2 ⟨hwideUpper, hall.2.2⟩
  · rcases hhalves.contains_cases hid with ⟨hin, -⟩ | ⟨-, hin⟩
    · exact ⟨lower, by simp, hin, hlower⟩
    · exact ⟨upper, by simp, hin, hupper⟩

/-- A look for a new id finds its bucket, which either settles the matter or is halved, and so loses a free bit. -/
theorem Awaits.look_cases {height : Nat} (h : d.Awaits node.id height) (now : Int) (rule : SplitRule) :
    ∃ b, d.bucketOf? node.id = some b ∧ ((∃ insertion, d.Settling now rule node insertion) ∨
      d.Halving now rule node b ∧ ∃ rest, height = rest + 1 ∧ (d.split now b).directory.Awaits node.id rest) := by
  obtain ⟨b, hb, hid, hfits⟩ := h.bucket
  obtain ⟨before, behind, hitems⟩ := List.append_of_mem hb
  have hd := h.sound
  refine ⟨b, bucketOf?_eq hd.tiles hitems hid, ?_⟩
  cases hfull : b.isFull with
  | false => exact Or.inl ⟨_, look_room hd.ascending hd.tiles hitems hid h.new hfull, by simp⟩
  | true =>
    have hlook : d.look now rule node = _ := look_full hd.ascending hd.tiles hitems hid h.new hfull
    cases hrule : rule.allows b with
    | false =>
      rw [hrule] at hlook
      exact Or.inl ⟨_, hlook, by simp⟩
    | true =>
      rw [if_pos hrule] at hlook
      obtain ⟨rest, rfl⟩ := hfits.block.exists_height hrule
      obtain ⟨lower, upper, hhalves, hsplit⟩ := split_eq hd.ascending hd.tiles hitems hfits.block.min_lt_max now
      refine Or.inr ⟨⟨hlook, splits_iff.2 (by rw [hsplit]), ?_⟩, rest, rfl, ?_⟩
      · rw [hsplit]
        exact ⟨_, _, _, rfl⟩
      · rw [hsplit]
        exact h.halve hitems hid hfits hfull hhalves

/-- The bucket of an awaited id has three free bits at least. -/
theorem Awaits.three_le {height : Nat} (h : d.Awaits node.id height) : 3 ≤ height := by
  obtain ⟨b, hb, -, hfits⟩ := h.bucket
  exact hfits.block.wide_iff.1 (h.wide b hb)

/-- The offer of a new id halves a bucket with each look but the last. As each halving costs a free bit and three remain, there are
three fewer than the bucket of the id has free bits. -/
theorem Awaits.visited_eq {looks height : Nat} (h : d.Awaits node.id height) (hlooks : height < looks + 3) (now : Int)
    (rule : SplitRule) :
    ∃ path last insertion, d.visited now rule node looks = path ++ [last] ∧ path.length + 3 ≤ height ∧
      (∀ e ∈ path, ∃ b, e.bucketOf? node.id = some b ∧ e.Halving now rule node b) ∧
      (∃ b, last.bucketOf? node.id = some b) ∧ last.Settling now rule node insertion ∧ ∀ e ∈ path ++ [last], e.Wide := by
  have hthree := h.three_le
  induction looks generalizing d height with
  | zero => omega
  | succ looks ih =>
    obtain ⟨b, hbucket, ⟨insertion, hsettling⟩ | ⟨hhalving, rest, rfl, hrest⟩⟩ := h.look_cases now rule
    · refine ⟨[], d, insertion, ?_, by simpa using hthree, by simp, ⟨b, hbucket⟩, hsettling, by simpa using h.wide⟩
      simp [visited, hsettling.1]
    · obtain ⟨path, last, insertion, hvisited, hlength, hpath, hlast, hsettling, hwide⟩ := ih hrest (by omega) hrest.three_le
      refine ⟨d :: path, last, insertion, ?_, ?_, ?_, hlast, hsettling, ?_⟩
      · simp [visited, hhalving.1, hvisited]
      · rw [List.length_cons]
        omega
      · exact List.forall_mem_cons.2 ⟨⟨b, hbucket, hhalving⟩, hpath⟩
      · exact List.forall_mem_cons.2 ⟨h.wide, hwide⟩

/-- The offer of any node to a sound directory of wide buckets halves a bucket with each look but the last, at most 157 times. -/
theorem Sound.visited_eq (hd : d.Sound) (hwide : d.Wide) (now : Int) (rule : SplitRule) (node : Node) :
    ∃ path last insertion, d.visited now rule node maxLooks = path ++ [last] ∧ path.length ≤ 157 ∧
      (∀ e ∈ path, ∃ b, e.bucketOf? node.id = some b ∧ e.Halving now rule node b) ∧
      (∃ b, last.bucketOf? node.id = some b) ∧ last.Settling now rule node insertion ∧ ∀ e ∈ path ++ [last], e.Wide := by
  obtain ⟨before, b, behind, hitems, hkey⟩ := exists_bucket hd.tiles node.id
  by_cases hid : d.nodes.Holds node.id
  · have hlook : d.look now rule node = _ := look_of_holds hd.ascending hd.tiles hid
    refine ⟨[], d, _, ?_, by simp, by simp, ⟨b, bucketOf?_eq hd.tiles hitems hkey⟩, ⟨hlook, by simp⟩, by simpa using hwide⟩
    simp [show maxLooks = 319 + 1 from rfl, visited, hlook]
  · have hb : b ∈ d.buckets.items := hitems ▸ List.mem_append_right before List.mem_cons_self
    obtain ⟨height, hfits⟩ := hd.fits b hb
    have hawaits : d.Awaits node.id height := ⟨hd, hwide, hid, b, hb, hkey, hfits⟩
    have hbits : height ≤ 160 := hfits.block.height_le
    have hlooks : height < maxLooks + 3 := Nat.lt_add_right 3 (height_lt_maxLooks hfits.block)
    obtain ⟨path, last, insertion, hvisited, hlength, hrest⟩ := hawaits.visited_eq hlooks now rule
    exact ⟨path, last, insertion, hvisited, by omega, hrest⟩

end Directory

/-! ## Runs -/

namespace Session

/-- The buckets of every run are wide. -/
theorem run_wide (config : Config) (ops : List Operation) (family : Family) :
    (((start config).run ops).table.directory family).Wide := by
  refine (run_directory (P := fun d => d.Sound ∧ d.Wide) config ?_ ?_ ?_ ops).2
  · exact fun now => ⟨Directory.sound_empty now, Directory.wide_empty now⟩
  · exact fun d now node hfamily hd => ⟨hd.1.insert hfamily, hd.2.insert hd.1⟩
  · exact fun d d' id status now hd h => ⟨hd.1.update h, hd.2.update hd.1 h⟩

end Session

/-- Whatever a session asked before, the offer of a node looks at directories that each have the bucket of the id. Every look but the
last splits this bucket, with nothing in the way of it and nothing lost; there are at most 157 splits and less than half of the looks
are used up when the last one settles the offer, which is never given up. All the buckets along the way, and those of either family,
have at least eight keys, so nowhere does it matter that a bucket of a single key is not split. -/
theorem run_visited (config : Config) (ops : List Operation) (contact : Contact) (status : Status) (age : Int) :
    let s := (Session.start config).run ops
    let node : Node := ⟨contact, status, s.now - age⟩
    let rule := config.toSplitRule
    let d := s.table.directory contact.family
    (∃ path last insertion, d.visited s.now rule node Directory.maxLooks = path ++ [last] ∧
      path.length ≤ 157 ∧ 2 * (path ++ [last]).length < Directory.maxLooks ∧
      (∀ e ∈ path, ∃ b, e.bucketOf? node.id = some b ∧ e.Halving s.now rule node b) ∧
      (∃ b, last.bucketOf? node.id = some b) ∧ last.Settling s.now rule node insertion ∧
      (d.insert s.now rule node).outcome = insertion.outcome ∧ (d.insert s.now rule node).state = insertion.state ∧
      ∀ e ∈ path ++ [last], ∀ b ∈ e.buckets.items,
        b.Wide ∧ rule.allows b = (rule.acceptAll || b.contains rule.ownId)) ∧
    (s.step (.insert contact status age)).answer ≠ .outcome .contended ∧
    ∀ family, ∀ b ∈ s.table.buckets family, b.Wide ∧ rule.allows b = (rule.acceptAll || b.contains rule.ownId) := by
  intro s node rule d
  have hs : s.Proper config := Session.proper_run config ops
  have hwide := Session.run_wide config ops
  refine ⟨?_, hs.answer_insert_ne_contended contact status age, ?_⟩
  · obtain ⟨path, last, insertion, hvisited, hlength, hpath, hlast, hsettling, hbuckets⟩ :=
      (hs.sound contact.family).visited_eq (hwide contact.family) s.now rule node
    have hgetLast : (d.visited s.now rule node Directory.maxLooks).getLast? = some last := by
      rw [hvisited, List.getLast?_concat]
    obtain ⟨houtcome, hstate⟩ := Directory.insertWithin_of_visited hgetLast hsettling.1
    refine ⟨path, last, insertion, hvisited, hlength, ?_, hpath, hlast, hsettling, houtcome, hstate, ?_⟩
    · rw [List.length_append, List.length_singleton, show Directory.maxLooks = 320 from rfl]
      omega
    · exact fun e he b hb => ⟨hbuckets e he b hb, (hbuckets e he b hb).allows_eq rule⟩
  · exact fun family b hb => ⟨hwide family b hb, (hwide family b hb).allows_eq rule⟩

end Kademlia
