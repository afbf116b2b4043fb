import Kademlia.Address
import Kademlia.Key

/-!
# Nodes

A contact is what another node tells about a node: its id and its endpoint. A node is a contact that we keep, with the status last
reported and the time of that report. Times are milliseconds on a clock that the caller reads; a node reported good counts as good
for fifteen minutes only.
-/

namespace Kademlia

/-- The id of a node and where it listens. -/
structure Contact where
  id : Key
  address : Address
deriving DecidableEq

namespace Contact

/-- The family of the contact's endpoint. -/
def family (c : Contact) : Family := c.address.family

/-- The contact with the flow label and the scope of its endpoint forgotten. -/
def bare (c : Contact) : Contact := { c with address := c.address.bare }

/-- Id and endpoint, with an at sign between them. -/
def text (c : Contact) : String := c.id.text ++ "@" ++ c.address.text

end Contact

/-- What is known of a node's health, from the worst to the best. -/
inductive Status
  | unknown
  | questionable
  | good
deriving DecidableEq, Repr

namespace Status

/-- The place of a status in the order. -/
def rank : Status → Nat
  | unknown => 0
  | questionable => 1
  | good => 2

instance : Ord Status := ⟨fun a b => compare a.rank b.rank⟩
instance : LE Status := leOfOrd
instance : DecidableLE Status := fun a b => inferInstanceAs (Decidable ((compare a b).isLE = true))
instance : Max Status := maxOfLe

/-- The name of a status in descriptions. -/
def text : Status → String
  | unknown => "Unknown"
  | questionable => "Questionable"
  | good => "Good"

end Status

/-- A contact that we keep, its reported status, and when that status was set. -/
structure Node where
  contact : Contact
  status : Status
  updated : Int
deriving DecidableEq

namespace Node

/-- How long a node reported good counts as good: fifteen minutes. -/
def freshFor : Int := 15 * 60 * 1000

/-- The id of the node. -/
def id (n : Node) : Key := n.contact.id

/-- Where the node listens. -/
def address (n : Node) : Address := n.contact.address

/-- The family of the node's endpoint. -/
def family (n : Node) : Family := n.contact.family

/-- Nodes are kept in the order of their ids. -/
def compareId (a b : Node) : Ordering := compare a.id b.id

/-- Records a report. -/
def report (n : Node) (status : Status) (now : Int) : Node := { n with status := status, updated := now }

/-- How long ago the status was set; a time ahead of the clock counts as now. -/
def idle (n : Node) (now : Int) : Int := max 0 (now - n.updated)

/-- The status with age taken into account: a good node that has been idle for too long is questionable. -/
def statusAt (n : Node) (now : Int) : Status :=
  if n.status = .good ∧ freshFor ≤ n.idle now then .questionable else n.status

/-- The opening of a node's description, up to the time of its last report. -/
def opening (n : Node) : String :=
  "Node \x7b id: " ++ n.id.text ++ ", addr: " ++ n.address.text ++ ", status: " ++ n.status.text ++ ", "

end Node

end Kademlia
