import Kademlia.Proofs.Layers
import Kademlia.Proofs.Offers
import Mathlib.Algebra.Order.BigOperators.Group.List

/-!
# How many nodes a table can hold

Each bucket has room for eight nodes, and the buckets of a family count each of its nodes once (`Directory.Sound.size_eq_sum`). If not
every id is welcome there are at most 158 of them, since a bucket of our own id with only three free bits has room for all its keys. So a
family has at most 1264 nodes and both families together 2528, fewer than the usual limit, which therefore never stops an offer.
-/

namespace Kademlia

/-- The buckets of a tiling hold each node between its ends once. -/
theorem Tiles.sum_population {start stop : Nat} {bs : List Bucket} (h : Tiles start stop bs) (nodes : List Node) :
    (bs.map fun b => b.population nodes).sum = nodes.countP fun n => start ≤ n.id.toNat && n.id.toNat < stop := by
  induction bs generalizing start with
  | nil =>
    obtain rfl : start = stop := h
    refine (List.countP_eq_zero.2 fun n _ => ?_).symm
    rw [Bool.and_eq_true, decide_eq_true_eq, decide_eq_true_eq]
    omega
  | cons b bs ih =>
    obtain ⟨hmin, hle, hrest⟩ := h
    have hstop := hrest.start_le_stop
    rw [List.map_cons, List.sum_cons, ih hrest, Bucket.population]
    refine (countP_eq_add (fun n => ?_) fun n => ?_).symm
    · rw [Bool.eq_iff_iff]
      simp only [Bool.or_eq_true, Bool.and_eq_true, decide_eq_true_eq, Bucket.contains_iff]
      omega
    · rw [Bool.eq_false_iff]
      simp only [ne_eq, Bool.and_eq_true, decide_eq_true_eq, Bucket.contains_iff]
      omega

namespace Directory

variable {family : Family} {d : Directory family} {rule : SplitRule} {ids : Finset Key}

/-- The counts of the buckets add up to the number of nodes. -/
theorem Sound.size_eq_sum (hd : d.Sound) : d.size = (d.buckets.items.map Bucket.count).sum := by
  have hcount : d.buckets.items.map Bucket.count = d.buckets.items.map fun b => b.population d.nodes.items := by
    refine List.map_congr_left fun b hb => ?_
    obtain ⟨height, hfits⟩ := hd.fits b hb
    exact hfits.counted
  rw [hcount, hd.tiles.sum_population]
  refine (List.countP_eq_length.2 fun n _ => ?_).symm
  rw [Bool.and_eq_true, decide_eq_true_eq, decide_eq_true_eq]
  exact ⟨Nat.zero_le _, key_lt n.id⟩

/-- A directory has no more nodes than its buckets have room for. -/
theorem Sound.size_le (hd : d.Sound) : d.size ≤ d.buckets.items.length * Bucket.capacity := by
  have hbounded : ∀ count ∈ d.buckets.items.map Bucket.count, count ≤ Bucket.capacity := by
    intro count hcount
    obtain ⟨b, hb, rfl⟩ := List.mem_map.1 hcount
    obtain ⟨height, hfits⟩ := hd.fits b hb
    exact hfits.bounded
  have hsum := List.sum_le_card_nsmul _ _ hbounded
  rw [← hd.size_eq_sum, List.length_map] at hsum
  exact hsum

/-- There is one bucket for each number of shared bits up to 156, and one for the rest of the keys. -/
theorem Layered.length_buckets_le (h : d.Layered rule ids) : d.buckets.items.length ≤ 158 := by
  obtain ⟨depth, hdepth, -, hperm⟩ := h.exists_depth
  have hlength := hperm.length_eq
  rw [List.length_map, layers, List.length_append, List.length_map, List.length_range, List.length_singleton] at hlength
  omega

theorem Layered.size_le (h : d.Layered rule ids) : d.size ≤ 1264 := by
  have hsize := h.sound.size_le
  have hbuckets := h.length_buckets_le
  rw [show Bucket.capacity = 8 from rfl] at hsize
  omega

end Directory

/-! ## Runs -/

namespace Session

/-- What every step after a run says, all replies of a run say. -/
theorem forall_mem_replies {s : Session} {P : Reply → Prop} (h : ∀ ops op, P ((s.run ops).step op)) (ops : List Operation) :
    ∀ reply ∈ s.replies ops, P reply := by
  induction ops generalizing s with
  | nil => exact List.forall_mem_nil _
  | cons op ops ih => exact List.forall_mem_cons.2 ⟨h [] op, ih fun more => h (op :: more)⟩

/-- If not every id is welcome, a limit that is above the room of both families is never met. -/
theorem answer_ne_tableFull (config : Config) (hlazy : config.acceptAll = false) (hmax : 2528 < config.maxNodes)
    (ops : List Operation) : ∀ reply ∈ (start config).replies ops, reply.answer ≠ .outcome .tableFull := by
  refine forall_mem_replies (fun ops op hanswer => ?_) ops
  have hv4 : ((start config).run ops).table.v4.size ≤ 1264 := (run_layered config hlazy ops .v4).size_le
  have hv6 : ((start config).run ops).table.v6.size ≤ 1264 := (run_layered config hlazy ops .v6).size_le
  have hfull := (((proper_run config ops).answer_eq_tableFull_iff op).1 hanswer).1
  unfold Table.size at hfull
  omega

end Session

/-- If not every id is welcome, a family never has more than 1264 nodes. So a limit of more than 2528 nodes for both families never stops
an offer, and the usual limit, which is 2560, does not. -/
theorem run_length_nodes_le (ownId : Key) (maxNodes closestCount : Nat) :
    let start := Session.start { ownId, acceptAll := false, maxNodes, closestCount }
    (∀ ops family, ((start.run ops).table.nodes family).length ≤ 1264) ∧
    (2528 < maxNodes → ∀ ops, ∀ reply ∈ start.replies ops, reply.answer ≠ .outcome .tableFull) ∧
    ∀ g : StdGen,
      let usual := Settings.config { ownId := some ownId } g
      usual.ownId = ownId ∧ usual.maxNodes = 2560 ∧
        ∀ ops, ∀ reply ∈ (Session.start usual).replies ops, reply.answer ≠ .outcome .tableFull := by
  intro start
  refine ⟨fun ops family => ?_, fun hmax => ?_, fun g => ⟨rfl, rfl, ?_⟩⟩
  · exact (Session.run_layered { ownId, acceptAll := false, maxNodes, closestCount } rfl ops family).size_le
  · exact Session.answer_ne_tableFull _ rfl hmax
  · exact Session.answer_ne_tableFull _ rfl (by decide : 2528 < 2560)

/-- The least limit above the room of both families, and eleven ids of which nine share no bit with our own: the last of the nine is turned
away, but not for the limit. -/
theorem run_length_nodes_le_of_least :
    let start := Session.start { ownId := Key.lowest, acceptAll := false, maxNodes := 2529, closestCount := 16 }
    let offers := (List.range 11).map fun k => Operation.insert ⟨Key.ofNat ((k + 14) * 2 ^ 155), .v4 (Octets.lowest 4) 0⟩ .good 0
    2528 < 2529 ∧ ((start.run offers).table.nodes .v4).length = 10 ∧
      ((start.run offers).table.nodes .v4).length ≤ 1264 ∧
      ∀ reply ∈ start.replies offers, reply.answer ≠ .outcome .tableFull := by
  intro start offers
  have hlimit : 2528 < 2529 := by decide
  have hlength : ((start.run offers).table.nodes .v4).length = 10 := by decide +kernel
  obtain ⟨hbound, hnever, -⟩ := run_length_nodes_le Key.lowest 2529 16
  exact ⟨hlimit, hlength, hbound offers .v4, hnever hlimit offers⟩

end Kademlia
