import Kademlia.Octets

/-!
# The SHA-1 digest

Turns any byte string into 20 bytes, the way content is given a place in the key space. The message is padded to whole blocks of
64 bytes; each block is mixed into five words of 32 bits in 80 rounds, and the five words are the digest. All additions are
modulo 2^32.
-/

namespace Kademlia.Sha1

/-- The five chaining words. -/
structure State where
  a : UInt32
  b : UInt32
  c : UInt32
  d : UInt32
  e : UInt32
deriving DecidableEq, Repr

/-- The state before the first block. -/
def State.start : State := ⟨0x67452301, 0xefcdab89, 0x98badcfe, 0x10325476, 0xc3d2e1f0⟩

/-- Wordwise addition. -/
def State.add (s t : State) : State := ⟨s.a + t.a, s.b + t.b, s.c + t.c, s.d + t.d, s.e + t.e⟩

/-- A word turned left by `n` bits, for `0 < n < 32`. -/
def rotate (n : UInt32) (w : UInt32) : UInt32 := w <<< n ||| w >>> (32 - n)

/-- The mixing function and the constant of a round: each serves 20 rounds. -/
def mix (round : Nat) (b c d : UInt32) : UInt32 × UInt32 :=
  if round < 20 then (b &&& c ||| ~~~b &&& d, 0x5a827999)
  else if round < 40 then (b ^^^ c ^^^ d, 0x6ed9eba1)
  else if round < 60 then (b &&& c ||| b &&& d ||| c &&& d, 0x8f1bbcdc)
  else (b ^^^ c ^^^ d, 0xca62c1d6)

/-- One round, which takes in one word of the schedule. -/
def State.round (s : State) (round : Nat) (word : UInt32) : State :=
  let (mixed, constant) := mix round s.b s.c s.d
  ⟨rotate 5 s.a + mixed + s.e + constant + word, s.a, rotate 30 s.b, s.c, s.d⟩

/-- The word that follows sixteen consecutive words of the schedule. -/
def nextWord (window : List UInt32) : UInt32 :=
  rotate 1 (window.getD 13 0 ^^^ window.getD 8 0 ^^^ window.getD 2 0 ^^^ window.getD 0 0)

/-- The last `left` of the 80 rounds, `window` being the next sixteen words of the schedule. -/
def State.rounds : Nat → List UInt32 → State → State
  | 0, _, s => s
  | left + 1, window, s =>
    rounds left (window.drop 1 ++ [nextWord window]) (s.round (79 - left) (window.getD 0 0))

/-- The 32-bit words of a byte string, four bytes a word, most significant byte first. -/
def words : Bytes → List UInt32
  | a :: b :: c :: d :: rest => UInt32.ofNat (Bytes.toNat [a, b, c, d]) :: words rest
  | _ => []

/-- Mixes in one block of 64 bytes. -/
def State.absorb (s : State) (block : Bytes) : State := s.add (State.rounds 80 (words block) s)

/-- Mixes in so many blocks. -/
def State.absorbAll : Nat → Bytes → State → State
  | 0, _, s => s
  | blocks + 1, bs, s => absorbAll blocks (bs.drop 64) (s.absorb (bs.take 64))

/-- The message, the byte 128, zeros, and the length of the message in bits as eight bytes: whole blocks of 64 bytes. -/
def pad (message : Bytes) : Bytes :=
  let zeros := (119 - message.length % 64) % 64
  message ++ 128 :: List.replicate zeros 0 ++ Bytes.ofNat 8 (8 * message.length)

/-- The digest of a message. -/
def digest (message : Bytes) : Octets 20 :=
  let padded := pad message
  let s := State.absorbAll (padded.length / 64) padded State.start
  ⟨[s.a, s.b, s.c, s.d, s.e].flatMap fun w => Bytes.ofNat 4 w.toNat, by simp⟩

/-- Padding fills the last block. -/
theorem length_pad (message : Bytes) : (pad message).length % 64 = 0 := by
  simp only [pad, List.length_append, List.length_cons, List.length_replicate, Bytes.length_ofNat]
  omega

example : (digest []).bytes.take 4 = [0xda, 0x39, 0xa3, 0xee] := by decide +kernel

example : (digest [0x61, 0x62, 0x63]).bytes.take 4 = [0xa9, 0x99, 0x3e, 0x36] := by decide +kernel

end Kademlia.Sha1
