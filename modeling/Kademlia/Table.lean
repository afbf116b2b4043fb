import Kademlia.Directory

/-!
# The routing table

A dual stack node keeps one table: a directory for each address family, one own id, and one limit on the nodes of both families
together. Which directory an operation is about follows from the endpoint of the node, or from the family it names.
-/

namespace Kademlia

/-- What a table is set up with: our own id and which buckets may be split, how many nodes both families together may have, and
how many nodes a search returns. -/
structure Config extends SplitRule where
  maxNodes : Nat
  closestCount : Nat
deriving DecidableEq

/-- A wish for a table: what is left out takes its usual value, and an own id is drawn at random. -/
structure Settings where
  ownId : Option Key := none
  maxNodes : Nat := 2 * Key.bits * Bucket.capacity
  acceptAll : Bool := false
  closestCount : Nat := 16

/-- How many nodes of a family there are, and how many of them are good and questionable. -/
structure Tally where
  total : Nat
  good : Nat
  questionable : Nat
deriving DecidableEq, Repr

/-- The routing table of a dual stack node. -/
structure Table where
  config : Config
  v4 : Directory .v4
  v6 : Directory .v6
deriving DecidableEq

namespace Table

/-- A table without nodes. -/
def empty (config : Config) (now : Int) : Table :=
  { config, v4 := .empty now, v6 := .empty now }

/-- The directory of a family. -/
def directory (t : Table) : (family : Family) → Directory family
  | .v4 => t.v4
  | .v6 => t.v6

/-- The table with another directory for a family. -/
def setDirectory (t : Table) : (family : Family) → Directory family → Table
  | .v4, d => { t with v4 := d }
  | .v6, d => { t with v6 := d }

/-- The number of nodes of both families. -/
def size (t : Table) : Nat := t.v4.size + t.v6.size

/-- Whether neither family has a node. -/
def isEmpty (t : Table) : Bool := t.v4.nodes.isEmpty && t.v6.nodes.isEmpty

/-- Offers a node. The limit is looked at first, also for a node that is known. -/
def insert (t : Table) (now : Int) (node : Node) : Insertion Table :=
  if t.config.maxNodes ≤ t.size then ⟨.tableFull, t, [.tableFull node.id]⟩
  else
    let inner := (t.directory node.family).insert now t.config.toSplitRule node
    { inner with state := t.setDirectory node.family inner.state }

/-- The node of a family with an id. -/
def find? (t : Table) (id : Key) (family : Family) : Option Node := (t.directory family).find? id

/-- Nodes of a family close to a key, in the order of their ids: the usual number of them, or as many as asked for. -/
def closest (t : Table) (target : Key) (family : Family) (count : Option Nat) : List Node :=
  (t.directory family).nodes.closest target (count.getD t.config.closestCount)

/-- Records a report about a known node of a family; `none` if it is not known. -/
def update? (t : Table) (id : Key) (status : Status) (family : Family) (now : Int) : Option Table :=
  ((t.directory family).update? id status now).map (t.setDirectory family)

/-- Counts the nodes of a family. -/
def tally (t : Table) (family : Family) (now : Int) : Tally :=
  let d := t.directory family
  { total := d.size, good := d.countStatus .good now, questionable := d.countStatus .questionable now }

/-- The nodes of a family, in the order of their ids. -/
def nodes (t : Table) (family : Family) : List Node := (t.directory family).nodes.items

/-- The buckets of a family, in the order of the key space. -/
def buckets (t : Table) (family : Family) : List Bucket := (t.directory family).buckets.items

/-- Forgets every node of both families and goes back to one bucket each, and reports how many nodes there were. -/
def clear (t : Table) (now : Int) : Table × List Event :=
  ({ t with v4 := t.v4.clear now, v6 := t.v6.clear now }, [.clearing t.size])

/-- A table that was cleared is an empty one that is set up the same way. -/
theorem clear_eq (t : Table) (now : Int) : t.clear now = (empty t.config now, [.clearing t.size]) := rfl

end Table

namespace Settings

/-- The own id asked for, or one drawn from a generator. -/
def chooseId (s : Settings) (g : StdGen) : Key := s.ownId.getD (Key.draw g).1

/-- The set-up that is asked for. -/
def config (s : Settings) (g : StdGen) : Config :=
  { ownId := s.chooseId g, maxNodes := s.maxNodes, acceptAll := s.acceptAll, closestCount := s.closestCount }

/-- Sets up a table, and reports how. -/
def openTable (s : Settings) (g : StdGen) (now : Int) : Table × List Event :=
  let config := s.config g
  (Table.empty config now, [.opened config.ownId config.maxNodes config.acceptAll])

end Settings

end Kademlia
