import Kademlia.Proofs.Descent

/-!
# Counting the halves of a split

A split does not look through the nodes to count them. It looks up three keys, the ends of a bucket and its middle, and takes the
differences of their positions. On nodes that strictly ascend these are exact whether or not the keys are ids of nodes, since the position
of the first key is that of the first node not below it, and the other two lie one past the last node that is not above them.
-/

namespace Kademlia

/-- In a directory whose nodes strictly ascend, the positions looked up for three keys in order are in order too, so that no difference of
them is cut off at zero. The differences are the number of nodes from the first key to the second and the number of nodes behind the second
up to the third, and their sum is the number of nodes from the first key to the third. -/
theorem Directory.countHalves_exact {family : Family} (d : Directory family)
    (hnodes : d.nodes.items.Pairwise fun a b => a.id < b.id) {min mid max : Key} (hmin : min ≤ mid) (hmax : mid ≤ max) :
    let start := (d.nodes.positionOfId min).index
    let middle := (d.nodes.positionOfId mid).upperBound
    let stop := (d.nodes.positionOfId max).upperBound
    let lower := d.nodes.items.countP fun n => min ≤ n.id && n.id ≤ mid
    let upper := d.nodes.items.countP fun n => mid < n.id && n.id ≤ max
    start ≤ middle ∧ middle ≤ stop ∧ stop ≤ d.nodes.size ∧
      middle - start = lower ∧ stop - middle = upper ∧ d.countHalves min mid max = (lower, upper) ∧
      lower + upper = d.nodes.items.countP fun n => min ≤ n.id && n.id ≤ max := by
  intro start middle stop lower upper
  have hlower : middle = start + lower := NodeList.upperBound_eq_index_add hnodes hmin
  have hupper : stop = middle + upper := NodeList.upperBound_eq_upperBound_add hnodes hmax
  have hboth : stop = start + d.nodes.items.countP fun n => min ≤ n.id && n.id ≤ max :=
    NodeList.upperBound_eq_index_add hnodes (Octets.le_iff.2 (Nat.le_trans (Octets.le_iff.1 hmin) (Octets.le_iff.1 hmax)))
  have hsize : stop ≤ d.nodes.size := by
    rw [show stop = _ from NodeList.upperBound_positionOfId hnodes max]
    exact List.countP_le_length
  refine ⟨?_, ?_, hsize, ?_, ?_, Directory.countHalves_eq hnodes hmin hmax, ?_⟩
  · omega
  · omega
  · omega
  · omega
  · omega

/-- Four nodes, counted between keys that are ids of nodes, between keys that are not, and beyond the last of them. -/
theorem Directory.countHalves_exact_of_four :
    let node (k : Nat) : Node := ⟨⟨Key.ofNat k, .v4 (Octets.lowest 4) 0⟩, .good, 0⟩
    let d : Directory .v4 := ⟨⟨[node 2, node 4, node 6, node 9]⟩, .empty⟩
    (d.nodes.items.Pairwise fun a b => a.id < b.id) ∧
      d.countHalves (Key.ofNat 4) (Key.ofNat 6) (Key.ofNat 9) = (2, 1) ∧
      d.countHalves (Key.ofNat 3) (Key.ofNat 5) (Key.ofNat 8) = (1, 1) ∧
      d.countHalves (Key.ofNat 10) (Key.ofNat 11) (Key.ofNat 13) = (0, 0) := by
  intro node d
  have hnodes : d.nodes.items.Pairwise fun a b => a.id < b.id := by decide +kernel
  have hcount {min mid max : Key} (hmin : min ≤ mid) (hmax : mid ≤ max) :=
    (Directory.countHalves_exact d hnodes hmin hmax).2.2.2.2.2.1
  refine ⟨hnodes, (hcount ?_ ?_).trans ?_, (hcount ?_ ?_).trans ?_, (hcount ?_ ?_).trans ?_⟩ <;> decide +kernel

end Kademlia
