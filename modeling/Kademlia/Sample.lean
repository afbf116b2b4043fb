import Kademlia.Node
import Kademlia.SortedList

/-!
# Sample data

A fixed id, a fixed endpoint of each family, and any number of random ids, for trying the library out.
-/

namespace Kademlia.Sample

/-- An id that is neither end of the key space. -/
def id : Key := Octets.fill 20 0x5a

/-- The port of the sample endpoints. -/
def port : UInt16 := 6881

/-- The endpoint of the shorter family: this host. -/
def addressV4 : Address := .v4 ⟨[127, 0, 0, 1], rfl⟩ port

/-- The endpoint of the longer family. -/
def addressV6 : Address := .v6 ⟨[0x20, 0x01, 0x0d, 0xb8, 0, 0, 0, 0, 0, 0, 0, 0, 0, 0, 0, 1], rfl⟩ port 0 0

/-- Random ids in ascending order, each once: as many as were drawn, unless two draws agree. -/
def ids (count : Nat) (g : StdGen) : List Key :=
  (SortedList.ofList (Key.drawMany count g).1 : SortedList Key compare .refused).items

/-- Whether each key is less than the next. -/
def ascending : List Key → Bool
  | a :: b :: rest => a < b && ascending (b :: rest)
  | _ => true

end Kademlia.Sample
