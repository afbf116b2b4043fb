import Kademlia.Bucket
import Kademlia.Closest
import Kademlia.Event

/-!
# The nodes of one address family

A directory holds the nodes of one family and, apart from them, the buckets that divide the key space. A node goes into the bucket
of its id. If that bucket is full it is split in halves, over and over, as long as it holds our own id or every id is welcome;
otherwise the node is turned away.

Nodes and buckets are two lists that must agree, and every operation says what it does should they not: a bucket that is missing or
was changed is looked for again, a bounded number of times.
-/

namespace Kademlia

/-- The buckets of one family, in the order of the key space. -/
abbrev BucketList := SortedList Bucket Bucket.order .refused

/-- What became of a node that was offered. -/
inductive Outcome
  | added
  | alreadyPresent
  | tableFull
  | bucketFull
  | contended
deriving DecidableEq, Repr

/-- The name of an outcome. -/
def Outcome.text : Outcome → String
  | added => "Added"
  | alreadyPresent => "AlreadyPresent"
  | tableFull => "TableFull"
  | bucketFull => "BucketFull"
  | contended => "Contended"

/-- The result of offering a node: the outcome, the state afterwards, and what was reported. -/
structure Insertion (σ : Type) where
  outcome : Outcome
  state : σ
  events : List Event
deriving DecidableEq

/-- Which full buckets may be split: that of our own id, or every one. -/
structure SplitRule where
  ownId : Key
  acceptAll : Bool
deriving DecidableEq

/-- A bucket of one key is never split. -/
def SplitRule.allows (rule : SplitRule) (bucket : Bucket) : Bool :=
  !bucket.isSingleton && (rule.acceptAll || bucket.contains rule.ownId)

/-- The nodes and buckets of one family. -/
structure Directory (family : Family) where
  nodes : NodeList
  buckets : BucketList
deriving DecidableEq

/-- The result of splitting a bucket: whether both halves took its place, the state afterwards, and what was reported. -/
structure Split (family : Family) where
  succeeded : Bool
  directory : Directory family
  events : List Event
deriving DecidableEq

/-- What looking at the bucket of a node leads to: the matter is settled, the bucket was split, or there is no such bucket. -/
inductive Look (family : Family)
  | settled (insertion : Insertion (Directory family))
  | halved (split : Split family)
  | missing
deriving DecidableEq

namespace Directory

variable {family : Family}

/-- No nodes, and one bucket of all keys. -/
def empty (now : Int) : Directory family := { nodes := .empty, buckets := .ofList [Bucket.whole now] }

/-- The bucket that contains a key. -/
def bucketOf? (d : Directory family) (key : Key) : Option Bucket := d.buckets.getBy? (·.locate key)

/-- How many nodes have an id from `min` up to `mid`, and how many from there up to `max`, by the positions of the three keys. -/
def countHalves (d : Directory family) (min mid max : Key) : Nat × Nat :=
  let start := (d.nodes.positionOfId min).index
  let middle := (d.nodes.positionOfId mid).upperBound
  let stop := (d.nodes.positionOfId max).upperBound
  (middle - start, stop - middle)

/-- A bucket cut down to its lower half, and whether it was: one that has other ends than expected stays as it is. -/
def cut (now : Int) (expected : Bucket) (mid : Key) (count : Nat) (b : Bucket) : Bool × Bucket :=
  if b.min ≠ expected.min ∨ b.max ≠ expected.max then (false, b) else (true, (b.setMax mid now).setCount count now)

/-- Cuts a bucket down to its lower half; `none` if it is not there any more or has other ends by now. -/
def shrink? (d : Directory family) (now : Int) (bucket : Bucket) (mid : Key) (count : Nat) : Option (Directory family) :=
  match d.buckets.updateWith? (·.locate bucket.min) (cut now bucket mid count) with
  | some (true, buckets) => some { d with buckets }
  | some (false, _) => none
  | none => none

/-- Whether the upper half of a split may go in: its keys are uncovered, and the bucket below still ends at `mid`. -/
def admits (mid upperMin : Key) (buckets : BucketList) : Bool :=
  let uncovered := (buckets.getBy? (·.locate upperMin)).isNone
  let belowEnds := (buckets.getBy? (·.locate mid)).any fun b => b.max = mid
  uncovered && belowEnds

/-- Replaces a bucket by its two halves, each with the number of its nodes. -/
def split (d : Directory family) (now : Int) (bucket : Bucket) : Split family :=
  let mid := bucket.min.midpoint bucket.max
  match mid.succ? with
  | none => ⟨false, d, []⟩
  | some upperMin =>
    let (lower, upper) := d.countHalves bucket.min mid bucket.max
    match d.shrink? now bucket mid lower with
    | none => ⟨false, d, []⟩
    | some halved =>
      match halved.buckets.addIf ⟨upperMin, bucket.max, upper, now⟩ (admits mid upperMin) with
      | (buckets, true) => ⟨true, { halved with buckets }, [.bucketSplit family mid lower upper]⟩
      | (_, false) => ⟨false, halved, [.upperHalfDropped family mid upperMin bucket.max]⟩

/-- Puts a node whose bucket has room into the list of nodes, and counts it in its bucket. -/
def place (d : Directory family) (now : Int) (node : Node) : Insertion (Directory family) :=
  match d.nodes.add node with
  | (_, false) => ⟨.alreadyPresent, d, []⟩
  | (nodes, true) =>
    match d.buckets.updateBy? (·.locate node.id) (·.increment now) with
    | some (_, buckets) => ⟨.added, { nodes, buckets }, []⟩
    | none => ⟨.added, { d with nodes }, [.bucketMoved family node.id]⟩

/-- Looks at the bucket of a node: the node is placed if there is room, and turned away if it is known already or the bucket may
not be split. -/
def look (d : Directory family) (now : Int) (rule : SplitRule) (node : Node) : Look family :=
  match d.bucketOf? node.id with
  | none => .missing
  | some bucket =>
    if !bucket.isFull then .settled (d.place now node)
    else if (d.nodes.positionOfId node.id).isFound then .settled ⟨.alreadyPresent, d, []⟩
    else if rule.allows bucket then .halved (d.split now bucket)
    else .settled ⟨.bucketFull, d, [.bucketFull family bucket.min bucket.max node.id]⟩

/-- Offers a node, with so many looks at its bucket. -/
def insertWithin (now : Int) (rule : SplitRule) (node : Node) : Nat → Directory family → Insertion (Directory family)
  | 0, d => ⟨.contended, d, [.gaveUp family node.id]⟩
  | looks + 1, d =>
    match d.look now rule node with
    | .settled insertion => insertion
    | .missing => insertWithin now rule node looks d
    | .halved split =>
      let rest := insertWithin now rule node looks split.directory
      { rest with events := split.events ++ rest.events }

/-- The most looks at a bucket: two for each bit of a key. -/
def maxLooks : Nat := 2 * Key.bits

/-- Offers a node. -/
def insert (d : Directory family) (now : Int) (rule : SplitRule) (node : Node) : Insertion (Directory family) :=
  insertWithin now rule node maxLooks d

/-- The node with an id. -/
def find? (d : Directory family) (id : Key) : Option Node :=
  (d.nodes.getBy? fun n => compare n.id id).filter fun n => n.id = id

/-- Records a report about a known node; `none` if it is not known. -/
def update? (d : Directory family) (id : Key) (status : Status) (now : Int) : Option (Directory family) :=
  (d.nodes.updateBy? (fun n => compare n.id id) fun n => n.report status now).map fun (_, nodes) => { d with nodes }

/-- The number of nodes. -/
def size (d : Directory family) : Nat := d.nodes.size

/-- How many nodes have a status, their age taken into account. -/
def countStatus (d : Directory family) (status : Status) (now : Int) : Nat :=
  d.nodes.items.countP fun n => n.statusAt now = status

/-- Forgets every node and goes back to one bucket. -/
def clear (d : Directory family) (now : Int) : Directory family :=
  { nodes := d.nodes.clear, buckets := d.buckets.reset [Bucket.whole now] }

end Directory

end Kademlia
