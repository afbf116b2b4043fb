/-!
# Byte strings

Raw data is a list of bytes, first byte first. Text enters the library as its UTF-8 bytes, so every length and every position in
a message counts bytes and not characters.

A byte string also writes an unsigned number, most significant byte first. The numbers of this library have up to 160 bits, which
no machine word holds, so the arithmetic is the schoolbook one: a long addition whose carry runs from the last byte to the first,
and a long halving whose remainder runs from the first byte to the last.
-/

namespace Kademlia

/-- A byte string of any length. -/
abbrev Bytes := List UInt8

/-- The UTF-8 bytes of a text. -/
def utf8 (s : String) : Bytes := s.toList.flatMap String.utf8EncodeChar

/-- The bytes of two texts put together are the bytes of the one and then of the other. -/
theorem utf8_append (s t : String) : utf8 (s ++ t) = utf8 s ++ utf8 t := by
  simp [utf8]

namespace Bytes

/-- The number that a byte string writes, most significant byte first. -/
def toNat (bs : Bytes) : Nat := bs.foldl (fun n b => 256 * n + b.toNat) 0

/-- The last `n` bytes of a number, most significant byte first. -/
def ofNat : Nat → Nat → Bytes
  | 0, _ => []
  | n + 1, k => ofNat n (k / 256) ++ [UInt8.ofNat k]

/-- Bytewise exclusive or, as long as the shorter string. -/
def xor (as bs : Bytes) : Bytes := as.zipWith (· ^^^ ·) bs

/-- Long addition of two strings of one length: the carry out of the first byte, and the bytes of the sum. -/
def addCarry : Bytes → Bytes → Nat × Bytes
  | a :: as, b :: bs =>
    let (carry, sum) := addCarry as bs
    let digit := a.toNat + b.toNat + carry
    (digit / 256, UInt8.ofNat digit :: sum)
  | _, _ => (0, [])

/-- Long halving, with the remainder that the bytes before these left over. -/
def halve : Nat → Bytes → Bytes
  | _, [] => []
  | remainder, b :: bs => UInt8.ofNat ((256 * remainder + b.toNat) / 2) :: halve (b.toNat % 2) bs

/-- The next number of the same length; `none` when every byte is 255 and one more byte would be needed. -/
def succ? : Bytes → Option Bytes
  | [] => none
  | b :: bs =>
    match succ? bs with
    | some next => some (b :: next)
    | none => if b = 255 then none else some ((b + 1) :: List.replicate bs.length 0)

/-- A number is written in as many bytes as asked for, even if it does not fit. -/
@[simp] theorem length_ofNat (n k : Nat) : (ofNat n k).length = n := by
  induction n generalizing k with
  | zero => rfl
  | succ n ih => simp [ofNat, ih]

@[simp] theorem length_xor (as bs : Bytes) : (xor as bs).length = min as.length bs.length := by
  simp [xor]

@[simp] theorem length_addCarry (as bs : Bytes) : (addCarry as bs).2.length = min as.length bs.length := by
  induction as generalizing bs with
  | nil => simp [addCarry]
  | cons a as ih =>
    cases bs with
    | nil => simp [addCarry]
    | cons b bs => simp only [addCarry, List.length_cons, ih]; omega

@[simp] theorem length_halve (r : Nat) (bs : Bytes) : (halve r bs).length = bs.length := by
  induction bs generalizing r with
  | nil => rfl
  | cons b bs ih => simp [halve, ih]

/-- The next number, if there is one of this length, has as many bytes. -/
theorem length_of_succ? {bs next : Bytes} (h : succ? bs = some next) : next.length = bs.length := by
  induction bs generalizing next with
  | nil => simp [succ?] at h
  | cons b bs ih =>
    unfold succ? at h
    split at h
    · rename_i rest hrest
      obtain rfl := Option.some.inj h
      simp [ih hrest]
    · by_cases hb : b = 255
      · simp [hb] at h
      · rw [if_neg hb] at h
        obtain rfl := Option.some.inj h
        simp

end Bytes

end Kademlia
