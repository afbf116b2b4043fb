import Kademlia.Octets
import Kademlia.Text.Quoted

/-!
# Hexadecimal text

A byte is written as two lower-case digits, the high half first. Reading takes both cases and works on the UTF-8 bytes of a text,
so a character that is no digit may stand for several bytes, of which the first is the one reported. Of several faults an odd
length is named before a wrong one, and a wrong length before a bad digit.
-/

namespace Kademlia

/-- Why a text is not the hexadecimal form of so many bytes. -/
inductive HexError
  | oddLength
  | wrongLength
  | badDigit (byte : UInt8) (position : Nat)
deriving DecidableEq, Repr

/-- The wording of each cause. A bad digit is shown as the character with the number of its byte. -/
def HexError.message : HexError → String
  | .oddLength => "Odd number of digits"
  | .wrongLength => "Invalid string length"
  | .badDigit byte position =>
    let shown := Text.Quoted.char (Char.ofNat byte.toNat)
    s!"Invalid character {shown} at position {position}"

namespace Hex

/-- The two digits of a byte. -/
def digits (b : UInt8) : List Char := [Nat.digitChar (b.toNat / 16), Nat.digitChar (b.toNat % 16)]

/-- The text of a byte string. -/
def encode (bs : Bytes) : String := String.ofList (bs.flatMap digits)

/-- The value of a digit, given as the byte of its ASCII code. -/
def value? (b : UInt8) : Option Nat :=
  if 48 ≤ b ∧ b ≤ 57 then some (b.toNat - 48)
  else if 97 ≤ b ∧ b ≤ 102 then some (b.toNat - 87)
  else if 65 ≤ b ∧ b ≤ 70 then some (b.toNat - 55)
  else none

/-- The value of the digit at a position, or the complaint about it. -/
def digitAt (position : Nat) (b : UInt8) : Except HexError Nat :=
  match value? b with
  | some v => .ok v
  | none => .error (.badDigit b position)

/-- Reads pairs of digits from the left, `position` being that of the first. -/
def readPairs : Nat → Bytes → Except HexError Bytes
  | _, [] => .ok []
  | _, [_] => .error .oddLength
  | position, high :: low :: rest => do
    let h ← digitAt position high
    let l ← digitAt (position + 1) low
    let bs ← readPairs (position + 2) rest
    return UInt8.ofNat (16 * h + l) :: bs

/-- Digits are read two at a time, so they are twice as many as the bytes. -/
theorem length_of_readPairs {position : Nat} {ascii bs : Bytes} (h : readPairs position ascii = .ok bs) :
    2 * bs.length = ascii.length := by
  induction position, ascii using readPairs.induct generalizing bs with
  | case1 => cases h; rfl
  | case2 => cases h
  | case3 position high low rest ih =>
    unfold readPairs at h
    cases hh : digitAt position high with
    | error e => rw [hh] at h; cases h
    | ok v =>
      cases hl : digitAt (position + 1) low with
      | error e => rw [hh, hl] at h; cases h
      | ok w =>
        cases hr : readPairs (position + 2) rest with
        | error e => rw [hh, hl, hr] at h; cases h
        | ok tail =>
          rw [hh, hl, hr] at h
          cases h
          have := ih hr
          simp only [List.length_cons]
          omega

/-- Reads the digits of exactly `n` bytes. -/
def decode (n : Nat) (ascii : Bytes) : Except HexError (Octets n) :=
  if ascii.length % 2 = 1 then .error .oddLength
  else if hn : ascii.length ≠ 2 * n then .error .wrongLength
  else match h : readPairs 0 ascii with
    | .ok bs => .ok ⟨bs, by have := length_of_readPairs h; omega⟩
    | .error e => .error e

end Hex

end Kademlia
