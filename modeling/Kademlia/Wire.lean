import Kademlia.Compact
import Kademlia.Text.Quoted

/-!
# Keys and contacts inside structured data

A message is a tree of values. Keys and lists of contacts stand in it as byte strings, and a byte string may come as a text, which
stands for its UTF-8 bytes, or as a list of numbers. The bytes are read first and their count is checked afterwards, so a value of
the wrong shape is named before one of the wrong length.
-/

namespace Kademlia

/-- Structured data as it arrives. -/
inductive Value
  | null
  | bool (b : Bool)
  | int (n : Int)
  | text (s : String)
  | list (items : List Value)
  | map

/-- What a reader was looking for. -/
inductive Wanted
  | byteString
  | byte
deriving DecidableEq, Repr

/-- How many bytes a byte string must have. -/
inductive Extent
  | exactly (size : Nat)
  | multipleOf (size : Nat)
deriving DecidableEq, Repr

/-- Why a value could not be read, or a list not be written. -/
inductive WireError
  | wrongShape (found : Value) (wanted : Wanted)
  | notAByte (n : Int)
  | wrongLength (actual : Nat) (wanted : Extent)
  | wrongFamily (contact : Contact) (listed : Family)

/-- How a message names a value: its shape, and what it holds if that is a single thing. -/
def Value.describe : Value → String
  | .null => "null"
  | .bool b => "boolean \x60" ++ (if b then "true" else "false") ++ "\x60"
  | .int n => "integer \x60" ++ toString n ++ "\x60"
  | .text s => "string " ++ Text.Quoted.text s
  | .list _ => "sequence"
  | .map => "map"

/-- What was looked for, as messages name it. -/
def Wanted.text : Wanted → String
  | .byteString => "byte array"
  | .byte => "u8"

/-- How many bytes there should be, as messages name it. -/
def Extent.text : Extent → String
  | .exactly size => toString size ++ " bytes"
  | .multipleOf size => "a multiple of " ++ toString size ++ " bytes"

/-- The wording of each cause. -/
def WireError.message : WireError → String
  | .wrongShape found wanted => "invalid type: " ++ found.describe ++ ", expected " ++ wanted.text
  | .notAByte n => "invalid value: " ++ (Value.int n).describe ++ ", expected " ++ Wanted.byte.text
  | .wrongLength actual wanted => "invalid length " ++ toString actual ++ ", expected " ++ wanted.text
  | .wrongFamily contact listed =>
    contact.family.text ++ " node " ++ contact.address.text ++ " in an " ++ listed.text ++ " node list"

namespace Wire

/-- One element of a byte string that comes as a list. -/
def readByte : Value → Except WireError UInt8
  | .int n => if 0 ≤ n ∧ n < 256 then .ok (UInt8.ofNat n.toNat) else .error (.notAByte n)
  | v => .error (.wrongShape v .byte)

/-- A byte string; the first element that is no byte is the one reported. -/
def readBytes : Value → Except WireError Bytes
  | .text s => .ok (utf8 s)
  | .list items => items.mapM readByte
  | v => .error (.wrongShape v .byteString)

/-- A key, written as its bytes. -/
def writeKey (key : Key) : Bytes := key.bytes

/-- The key that a byte string of its length is. -/
def readKey (v : Value) : Except WireError Key := do
  let bs ← readBytes v
  match Octets.ofBytes? 20 bs with
  | some key => return key
  | none => throw (.wrongLength bs.length (.exactly 20))

/-- A list of contacts of one family, written as their compact forms. -/
def writeContacts (family : Family) (contacts : List Contact) : Except WireError Bytes :=
  (Compact.encodeList family contacts).mapError fun c => .wrongFamily c family

/-- The contacts of a family that a byte string lists. -/
def readContacts (family : Family) (v : Value) : Except WireError (List Contact) := do
  let bs ← readBytes v
  match Compact.decodeList? family bs with
  | some contacts => return contacts
  | none => throw (.wrongLength bs.length (.multipleOf (Compact.entrySize family)))

end Wire

end Kademlia
