import Kademlia.Node

/-!
# Compact contacts

The binary form of a contact: twenty bytes of id, four or sixteen of address, two of port. A list of contacts is their forms one
after the other, all of one family, so the length alone says whether a byte string is such a list. Flow label and scope have no
place in it.
-/

namespace Kademlia.Compact

/-- The number of bytes of one contact of a family. -/
def entrySize : Family → Nat
  | .v4 => 26
  | .v6 => 38

/-- The compact form of a contact. -/
def encode (c : Contact) : Bytes := c.id.bytes ++ c.address.ip ++ Bytes.ofNat 2 c.address.port.toNat

/-- The contact that a byte string is the compact form of. The length tells the family. -/
def decode? (bs : Bytes) : Option Contact := do
  let id ← Octets.ofBytes? 20 (bs.take 20)
  let rest := bs.drop 20
  guard (2 ≤ rest.length)
  let address ← Address.ofIp? (rest.take (rest.length - 2))
    (UInt16.ofNat (Bytes.toNat (rest.drop (rest.length - 2))))
  return { id, address }

/-- The compact forms of a list of contacts of one family; the first contact of the other family, if there is one. -/
def encodeList (family : Family) : List Contact → Except Contact Bytes
  | [] => .ok []
  | c :: cs => do
    if c.family ≠ family then throw c
    let rest ← encodeList family cs
    return encode c ++ rest

/-- The first `count` pieces of `size` bytes. -/
def pieces (size : Nat) : Nat → Bytes → List Bytes
  | 0, _ => []
  | count + 1, bs => bs.take size :: pieces size count (bs.drop size)

/-- The contacts of a family that a byte string lists, if it is cut into whole entries. -/
def decodeList? (family : Family) (bs : Bytes) : Option (List Contact) :=
  let size := entrySize family
  if bs.length % size = 0 then (pieces size (bs.length / size) bs).mapM decode? else none

/-- An entry has the size that its family fixes. -/
theorem length_encode (c : Contact) : (encode c).length = entrySize c.family := by
  obtain ⟨id, address⟩ := c
  cases address with
  | v4 ip port => simp [encode, Address.ip, Contact.family, Address.family, entrySize, id.length_bytes, ip.length_bytes]
  | v6 ip port flow scope =>
    simp [encode, Address.ip, Contact.family, Address.family, entrySize, id.length_bytes, ip.length_bytes]

end Kademlia.Compact
