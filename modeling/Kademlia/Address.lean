import Kademlia.Octets

/-!
# Internet addresses

An endpoint of either address family: an address of four bytes with a port, or one of sixteen bytes with a port, a flow label and a
scope. A sixteen byte address that embeds a four byte one stays of its own family. The text form is the usual one of each family;
the flow label is never shown and the scope only when it is not zero.
-/

namespace Kademlia

/-- The two address families. -/
inductive Family
  | v4
  | v6
deriving DecidableEq, Repr

/-- The name of a family in messages. -/
def Family.text : Family → String
  | .v4 => "IPv4"
  | .v6 => "IPv6"

/-- An endpoint that a node listens on. -/
inductive Address
  | v4 (ip : Octets 4) (port : UInt16)
  | v6 (ip : Octets 16) (port : UInt16) (flow scope : UInt32)
deriving DecidableEq

namespace Address

/-- The family of an endpoint. -/
def family : Address → Family
  | v4 .. => .v4
  | v6 .. => .v6

/-- The four or sixteen bytes of the address proper. -/
def ip : Address → Bytes
  | v4 ip _ => ip.bytes
  | v6 ip .. => ip.bytes

/-- The port. -/
def port : Address → UInt16
  | v4 _ port => port
  | v6 _ port _ _ => port

/-- The endpoint that an address of four or sixteen bytes and a port make, with no flow label and no scope. -/
def ofIp? (ip : Bytes) (port : UInt16) : Option Address :=
  if h : ip.length = 4 then some (v4 ⟨ip, h⟩ port)
  else if h : ip.length = 16 then some (v6 ⟨ip, h⟩ port 0 0)
  else none

/-- The endpoint with its flow label and scope forgotten. -/
def bare : Address → Address
  | v4 ip port => v4 ip port
  | v6 ip port _ _ => v6 ip port 0 0

/-- Four bytes in decimal, with points between them. -/
def dotted (ip : Bytes) : String := ".".intercalate (ip.map fun b => toString b.toNat)

/-- The groups of two bytes of a sixteen byte address. -/
def groups : Bytes → List Nat
  | a :: b :: rest => Bytes.toNat [a, b] :: groups rest
  | _ => []

/-- Groups in hexadecimal without leading zeros, with colons between them. -/
def coloned (gs : List Nat) : String := ":".intercalate (gs.map fun g => String.ofList (Nat.toDigits 16 g))

/-- Where the longest run of zero groups starts and how long it is; of equally long ones the first counts. -/
def longestZeros (gs : List Nat) : Nat × Nat :=
  (List.range gs.length).foldl (fun best start =>
    let run := ((gs.drop start).takeWhile (· = 0)).length
    if best.2 < run then (start, run) else best) (0, 0)

/-- A sixteen byte address. The longest run of at least two zero groups is left out between two colons; an embedded four byte
address, after ten zero bytes and two of 255, is written with points. -/
def groupText (ip : Bytes) : String :=
  if ip.take 12 = List.replicate 10 0 ++ [255, 255] then "::ffff:" ++ dotted (ip.drop 12)
  else
    let gs := groups ip
    let (start, run) := longestZeros gs
    if run < 2 then coloned gs
    else coloned (gs.take start) ++ "::" ++ coloned (gs.drop (start + run))

/-- Address and port; the address of the longer family stands in brackets, with its scope behind a percent sign. -/
def text : Address → String
  | v4 ip port => dotted ip.bytes ++ ":" ++ toString port.toNat
  | v6 ip port _ scope =>
    let zone := if scope = 0 then "" else "%" ++ toString scope.toNat
    "[" ++ groupText ip.bytes ++ zone ++ "]:" ++ toString port.toNat

/-- An IP address has as many bytes as its family says. -/
theorem length_ip (a : Address) : a.ip.length = match a.family with | .v4 => 4 | .v6 => 16 := by
  cases a with
  | v4 ip port => exact ip.length_bytes
  | v6 ip port flow scope => exact ip.length_bytes

/-- Address and port are all that is left of an endpoint without flow label and scope. -/
theorem ofIp?_ip (a : Address) : ofIp? a.ip a.port = some a.bare := by
  cases a with
  | v4 ip port => simp [ofIp?, Address.ip, Address.port, bare, ip.length_bytes]
  | v6 ip port flow scope => simp [ofIp?, Address.ip, Address.port, bare, ip.length_bytes]

/-- Leaving flow and scope out does not change the family. -/
theorem family_bare (a : Address) : a.bare.family = a.family := by cases a <;> rfl

end Address

end Kademlia
