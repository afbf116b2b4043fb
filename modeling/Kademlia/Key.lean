import Kademlia.Hex
import Kademlia.Sha1

/-!
# Keys

Nodes and content share one space of 160-bit keys. A key is made from 20 raw bytes, from 40 hexadecimal digits, from the digest of
any data, from a small number, or drawn at random; it is always written as 40 lower-case digits. Each way to fail is a
`KeyError`.
-/

namespace Kademlia

/-- A place in the key space: 160 bits, compared as an unsigned number. -/
abbrev Key := Octets 20

/-- Why no key came about. -/
inductive KeyError
  | wrongLength (actual : Nat)
  | badHex (cause : HexError)
  | noSuchBit (index : Nat)
deriving DecidableEq, Repr

/-- The wording of each cause; the cause of bad digits has a message of its own. -/
def KeyError.message : KeyError → String
  | .wrongLength actual => s!"invalid id length: expected 20 bytes, got {actual}"
  | .badHex _ => "invalid hex id"
  | .noSuchBit index => s!"bit index {index} out of range"

namespace Key

/-- The number of bits of a key. -/
def bits : Nat := 160

/-- The smallest key. -/
def lowest : Key := Octets.lowest 20

/-- The largest key. -/
def highest : Key := Octets.highest 20

/-- The key that 20 bytes are. -/
def ofBytes (bs : Bytes) : Except KeyError Key :=
  match Octets.ofBytes? 20 bs with
  | some key => .ok key
  | none => .error (.wrongLength bs.length)

/-- The key that 40 hexadecimal digits of either case write. -/
def parse (s : String) : Except KeyError Key := (Hex.decode 20 (utf8 s)).mapError .badHex

/-- The 40 lower-case digits of a key. -/
def text (key : Key) : String := Hex.encode key.bytes

/-- The key of arbitrary data. -/
def sha1 (data : Bytes) : Key := Sha1.digest data

/-- The key of a small number. -/
def ofNat (n : Nat) : Key := Octets.ofNat 20 n

/-- The key with one bit changed, if it has that bit. -/
def flip (key : Key) (bit : Nat) : Except KeyError Key :=
  if bit < bits then .ok (key.toggle bit) else .error (.noSuchBit bit)

/-- Bytes drawn from a generator. -/
def drawBytes : Nat → StdGen → Bytes × StdGen
  | 0, g => ([], g)
  | n + 1, g =>
    let (b, g) := randNat g 0 255
    let (bs, g) := drawBytes n g
    (UInt8.ofNat b :: bs, g)

@[simp] theorem length_drawBytes (n : Nat) (g : StdGen) : (drawBytes n g).1.length = n := by
  induction n generalizing g with
  | zero => rfl
  | succ n ih => simp [drawBytes, ih]

/-- A key drawn from a generator, with the generator afterwards. -/
def draw (g : StdGen) : Key × StdGen :=
  (⟨(drawBytes 20 g).1, length_drawBytes 20 g⟩, (drawBytes 20 g).2)

/-- So many keys drawn one after the other. -/
def drawMany : Nat → StdGen → List Key × StdGen
  | 0, g => ([], g)
  | n + 1, g =>
    let (key, g) := draw g
    let (keys, g) := drawMany n g
    (key :: keys, g)

end Key

end Kademlia
