import Kademlia.Key

/-!
# Keys as hexadecimal text

A text is read byte by byte, and a character is a digit exactly if all bytes of its UTF-8 form are: the bytes of a character that is
not ASCII are none. So the texts of a key are those of 40 characters that are digits, and for every other text one fault is to blame
(`Hex.Fault`). What is read is written as the same text in lower case, and what is written is read back.
-/

namespace Kademlia

/-! ## UTF-8 -/

/-- A character below 128 is written as one byte, its number. -/
theorem utf8EncodeChar_of_lt {c : Char} (h : c.toNat < 128) : String.utf8EncodeChar c = [UInt8.ofNat c.toNat] :=
  if_pos (Nat.le_of_lt_succ h)

/-- Every byte of a character that is not ASCII has its first bit set. -/
theorem le_toNat_of_mem_utf8EncodeChar {c : Char} (h : 128 ≤ c.toNat) {b : UInt8} (hb : b ∈ String.utf8EncodeChar c) :
    128 ≤ b.toNat := by
  have hc : ¬c.val.toNat ≤ 127 := Nat.not_le_of_lt h
  simp only [String.utf8EncodeChar, if_neg hc] at hb
  split at hb
  · simp only [List.mem_cons, List.not_mem_nil, or_false] at hb
    rcases hb with rfl | rfl <;> rw [UInt8.toNat_ofNat'] <;> omega
  · split at hb
    · simp only [List.mem_cons, List.not_mem_nil, or_false] at hb
      rcases hb with rfl | rfl | rfl <;> rw [UInt8.toNat_ofNat'] <;> omega
    · simp only [List.mem_cons, List.not_mem_nil, or_false] at hb
      rcases hb with rfl | rfl | rfl | rfl <;> rw [UInt8.toNat_ofNat'] <;> omega

namespace Hex

/-! ## Digits -/

/-- A hexadecimal digit of either case. -/
def IsDigit (c : Char) : Prop := ('0' ≤ c ∧ c ≤ '9') ∨ ('a' ≤ c ∧ c ≤ 'f') ∨ ('A' ≤ c ∧ c ≤ 'F')

instance (c : Char) : Decidable (IsDigit c) := inferInstanceAs (Decidable (_ ∨ _))

/-- The character whose code point is a byte. -/
def character (b : UInt8) : Char := Char.ofNat b.toNat

/-- The character of a byte has its number. -/
theorem toNat_character (b : UInt8) : (character b).toNat = b.toNat := by
  have hb := b.toNat_lt
  rw [character, Char.ofNat, dif_pos (Or.inl (by omega))]
  rfl

/-- The byte of a character below 256 gives this character again. -/
theorem character_ofNat {c : Char} (h : c.toNat < 256) : character (UInt8.ofNat c.toNat) = c := by
  rw [character, UInt8.toNat_ofNat', Nat.mod_eq_of_lt h, Char.ofNat_toNat]

theorem IsDigit.toNat_lt {c : Char} (h : IsDigit c) : c.toNat < 128 := by
  simp only [IsDigit, Char.le_def, UInt32.le_iff_toNat_le, Char.toNat_val] at h
  rcases h with ⟨-, h⟩ | ⟨-, h⟩ | ⟨-, h⟩ <;> exact Nat.lt_of_le_of_lt h (by decide)

/-- Exactly the digits have a value. -/
theorem isSome_value?_iff (b : UInt8) : (value? b).isSome ↔ IsDigit (character b) := by
  have htable : ∀ n < 256, (value? (UInt8.ofNat n)).isSome ↔ IsDigit (Char.ofNat n) := by decide +kernel
  have h := htable b.toNat b.toNat_lt
  rwa [UInt8.ofNat_toNat] at h

/-- The value of a digit is written as this digit in lower case. -/
theorem digitChar_of_value? {b : UInt8} {v : Nat} (h : value? b = some v) :
    v < 16 ∧ Nat.digitChar v = (character b).toLower := by
  have htable : ∀ n < 256, (value? (UInt8.ofNat n)).all fun v => v < 16 ∧ Nat.digitChar v = (Char.ofNat n).toLower := by
    decide +kernel
  have hb := htable b.toNat b.toNat_lt
  rw [UInt8.ofNat_toNat, h] at hb
  exact of_decide_eq_true hb

/-- The digits that are written are digits, and in lower case. -/
theorem isDigit_digitChar {v : Nat} (h : v < 16) :
    IsDigit (Nat.digitChar v) ∧ (Nat.digitChar v).toLower = Nat.digitChar v := by
  revert v
  decide

/-- Different values have different digits. -/
theorem digitChar_inj {v w : Nat} (hv : v < 16) (hw : w < 16) (h : Nat.digitChar v = Nat.digitChar w) : v = w := by
  have htable : ∀ v < 16, ∀ w < 16, Nat.digitChar v = Nat.digitChar w → v = w := by decide
  exact htable v hv w hw h

/-- The bytes of a character are digits if it is one. -/
theorem forall_mem_utf8EncodeChar_iff (c : Char) :
    (∀ b ∈ String.utf8EncodeChar c, IsDigit (character b)) ↔ IsDigit c := by
  rcases Nat.lt_or_ge c.toNat 128 with h | h
  · rw [utf8EncodeChar_of_lt h, List.forall_mem_singleton, character_ofNat (Nat.lt_trans h (by decide))]
  · constructor
    · intro hall
      obtain ⟨b, bs, hbs⟩ := List.exists_cons_of_ne_nil (String.utf8EncodeChar_ne_nil (c := c))
      have hb : b ∈ String.utf8EncodeChar c := by
        rw [hbs]
        exact List.mem_cons_self
      have hlt := (hall b hb).toNat_lt
      have hge := le_toNat_of_mem_utf8EncodeChar h hb
      rw [toNat_character] at hlt
      omega
    · intro hc
      exact absurd hc.toNat_lt (Nat.not_lt_of_le h)

/-- The bytes of a text are all digits if its characters are. -/
theorem forall_mem_utf8_iff (s : String) : (∀ b ∈ utf8 s, IsDigit (character b)) ↔ ∀ c ∈ s.toList, IsDigit c := by
  simp only [utf8, List.mem_flatMap]
  constructor
  · intro h c hc
    exact (forall_mem_utf8EncodeChar_iff c).1 fun b hb => h b ⟨c, hc, hb⟩
  · rintro h b ⟨c, hc, hb⟩
    exact (forall_mem_utf8EncodeChar_iff c).2 (h c hc) b hb

/-- The bytes of a text of digits are its characters. -/
theorem map_character_utf8 {s : String} (h : ∀ c ∈ s.toList, IsDigit c) : (utf8 s).map character = s.toList := by
  unfold utf8
  generalize s.toList = cs at h ⊢
  induction cs with
  | nil => rfl
  | cons c cs ih =>
    obtain ⟨hc, hcs⟩ := List.forall_mem_cons.1 h
    have hlt := hc.toNat_lt
    rw [List.flatMap_cons, List.map_append, ih hcs, utf8EncodeChar_of_lt hlt, List.map_singleton,
      character_ofNat (Nat.lt_trans hlt (by decide)), List.singleton_append]

/-! ## Reading pairs of digits -/

variable {ascii : Bytes}

/-- A digit is read as the value that is written as its lower case. -/
theorem digitAt_of_isDigit {b : UInt8} (h : IsDigit (character b)) (position : Nat) :
    ∃ v < 16, digitAt position b = .ok v ∧ Nat.digitChar v = (character b).toLower := by
  obtain ⟨v, hv⟩ := Option.isSome_iff_exists.1 ((isSome_value?_iff b).2 h)
  obtain ⟨hlt, hdigit⟩ := digitChar_of_value? hv
  refine ⟨v, hlt, ?_, hdigit⟩
  unfold digitAt
  rw [hv]

/-- A byte that is no digit is reported with its position. -/
theorem digitAt_of_not_isDigit {b : UInt8} (h : ¬IsDigit (character b)) (position : Nat) :
    digitAt position b = .error (.badDigit b position) := by
  rw [← isSome_value?_iff, Option.not_isSome_iff_eq_none] at h
  unfold digitAt
  rw [h]

/-- The two digits of the byte that two values make. -/
theorem digits_ofNat {high low : Nat} (hhigh : high < 16) (hlow : low < 16) :
    digits (UInt8.ofNat (16 * high + low)) = [Nat.digitChar high, Nat.digitChar low] := by
  have hbyte : (UInt8.ofNat (16 * high + low)).toNat = 16 * high + low := by
    rw [UInt8.toNat_ofNat']
    omega
  rw [digits, hbyte, show (16 * high + low) / 16 = high by omega, show (16 * high + low) % 16 = low by omega]

/-- Pairs of digits are read as bytes that are written by the same digits in lower case. -/
theorem readPairs_of_digits (position : Nat) (heven : ascii.length % 2 = 0) (h : ∀ b ∈ ascii, IsDigit (character b)) :
    ∃ bs, readPairs position ascii = .ok bs ∧ bs.flatMap digits = ascii.map fun b => (character b).toLower := by
  induction position, ascii using readPairs.induct with
  | case1 => exact ⟨[], rfl, rfl⟩
  | case2 => simp at heven
  | case3 position high low rest ih =>
    simp only [List.forall_mem_cons] at h
    obtain ⟨hhigh, hlow, hrest⟩ := h
    obtain ⟨v, hv, hvread, hvdigit⟩ := digitAt_of_isDigit hhigh position
    obtain ⟨w, hw, hwread, hwdigit⟩ := digitAt_of_isDigit hlow (position + 1)
    obtain ⟨bs, hbs, hdigits⟩ := ih (by simp only [List.length_cons] at heven; omega) hrest
    refine ⟨UInt8.ofNat (16 * v + w) :: bs, ?_, ?_⟩
    · unfold readPairs
      rw [hvread, hwread, hbs]
      rfl
    · rw [List.flatMap_cons, digits_ofNat hv hw, hdigits, hvdigit, hwdigit]
      rfl

/-- Reading stops at the first byte that is no digit. -/
theorem readPairs_of_not_isDigit (position : Nat) {byte : UInt8} {i : Nat} (heven : ascii.length % 2 = 0)
    (hbyte : ascii[i]? = some byte) (hbad : ¬IsDigit (character byte)) (hbefore : ∀ b ∈ ascii.take i, IsDigit (character b)) :
    readPairs position ascii = .error (.badDigit byte (position + i)) := by
  induction position, ascii using readPairs.induct generalizing i with
  | case1 => simp at hbyte
  | case2 => simp at heven
  | case3 position high low rest ih =>
    unfold readPairs
    -- the byte is the first or the second digit of this pair, or stands in the rest
    rcases i with _ | _ | i
    · obtain rfl : high = byte := Option.some.inj hbyte
      rw [digitAt_of_not_isDigit hbad]
      rfl
    · obtain rfl : low = byte := Option.some.inj hbyte
      obtain ⟨v, -, hv, -⟩ := digitAt_of_isDigit (hbefore high (by simp)) position
      rw [hv, digitAt_of_not_isDigit hbad]
      rfl
    · obtain ⟨v, -, hv, -⟩ := digitAt_of_isDigit (hbefore high (by simp)) position
      obtain ⟨w, -, hw, -⟩ := digitAt_of_isDigit (hbefore low (by simp)) (position + 1)
      have hrest := ih (i := i) (by simp only [List.length_cons] at heven; omega) hbyte
        fun b hb => hbefore b (by simp [hb])
      rw [hv, hw, hrest, Nat.add_assoc, Nat.add_comm 2 i]
      rfl

/-- In a byte string that does not consist of digits there is a first byte that is none. -/
theorem exists_first_not_isDigit (h : ¬∀ b ∈ ascii, IsDigit (character b)) :
    ∃ i byte, ascii[i]? = some byte ∧ ¬IsDigit (character byte) ∧ ∀ b ∈ ascii.take i, IsDigit (character b) := by
  induction ascii with
  | nil => simp at h
  | cons b bs ih =>
    by_cases hb : IsDigit (character b)
    · rw [List.forall_mem_cons, not_and] at h
      obtain ⟨i, byte, hbyte, hbad, hbefore⟩ := ih (h hb)
      exact ⟨i + 1, byte, hbyte, hbad, List.forall_mem_cons.2 ⟨hb, hbefore⟩⟩
    · exact ⟨0, b, rfl, hb, by simp⟩

/-! ## Reading and its faults -/

variable {n : Nat}

/-- What is to blame if a byte string is not the hexadecimal form of `n` bytes: an odd length; else a wrong one; else the first byte
that is no digit, with its position. -/
def Fault (n : Nat) (ascii : Bytes) : HexError → Prop
  | .oddLength => ascii.length % 2 = 1
  | .wrongLength => ascii.length % 2 = 0 ∧ ascii.length ≠ 2 * n
  | .badDigit byte position =>
    ascii.length = 2 * n ∧ ascii[position]? = some byte ∧ ¬IsDigit (character byte) ∧
      ∀ b ∈ ascii.take position, IsDigit (character b)

/-- A text of the right length is decoded if its digits can be read. -/
theorem decode_of_readPairs_ok {bs : Bytes} (hlen : ascii.length = 2 * n) (h : readPairs 0 ascii = .ok bs) :
    ∃ a, decode n ascii = .ok a ∧ a.bytes = bs := by
  unfold decode
  rw [if_neg (by omega), dif_neg (not_not_intro hlen)]
  split
  · rename_i read hread
    exact ⟨_, rfl, Except.ok.inj (hread.symm.trans h)⟩
  · rename_i e hread
    rw [hread] at h
    cases h

/-- In a text of the right length the fault reported is the one met in reading the digits. -/
theorem decode_of_readPairs_error {e : HexError} (hlen : ascii.length = 2 * n) (h : readPairs 0 ascii = .error e) :
    decode n ascii = .error e := by
  unfold decode
  rw [if_neg (by omega), dif_neg (not_not_intro hlen)]
  split
  · rename_i read hread
    rw [hread] at h
    cases h
  · rename_i e' hread
    rw [hread] at h
    rw [Except.error.inj h]

/-- A text of the right length with digits only is decoded to bytes that are written as it is, in lower case. -/
theorem decode_of_digits (hlen : ascii.length = 2 * n) (h : ∀ b ∈ ascii, IsDigit (character b)) :
    ∃ a, decode n ascii = .ok a ∧ a.bytes.flatMap digits = ascii.map fun b => (character b).toLower := by
  obtain ⟨bs, hread, hdigits⟩ := readPairs_of_digits 0 (by omega) h
  obtain ⟨a, ha, rfl⟩ := decode_of_readPairs_ok hlen hread
  exact ⟨a, ha, hdigits⟩

/-- A fault is reported as what it is. -/
theorem decode_of_fault {cause : HexError} (h : Fault n ascii cause) : decode n ascii = .error cause := by
  cases cause with
  | oddLength => exact if_pos h
  | wrongLength =>
    obtain ⟨heven, hlen⟩ := h
    unfold decode
    rw [if_neg (by omega), dif_pos hlen]
  | badDigit byte position =>
    obtain ⟨hlen, hbyte, hbad, hbefore⟩ := h
    have hread := readPairs_of_not_isDigit 0 (by omega) hbyte hbad hbefore
    rw [Nat.zero_add] at hread
    exact decode_of_readPairs_error hlen hread

/-- A byte string is made of the right number of digits or has a fault. -/
theorem digits_or_fault (n : Nat) (ascii : Bytes) :
    (ascii.length = 2 * n ∧ ∀ b ∈ ascii, IsDigit (character b)) ∨ ∃ cause, Fault n ascii cause := by
  by_cases hlen : ascii.length = 2 * n
  · by_cases hdigits : ∀ b ∈ ascii, IsDigit (character b)
    · exact Or.inl ⟨hlen, hdigits⟩
    · obtain ⟨i, byte, hfirst⟩ := exists_first_not_isDigit hdigits
      exact Or.inr ⟨.badDigit byte i, hlen, hfirst⟩
  · rcases Nat.mod_two_eq_zero_or_one ascii.length with heven | hodd
    · exact Or.inr ⟨.wrongLength, heven, hlen⟩
    · exact Or.inr ⟨.oddLength, hodd⟩

/-- What is reported is a fault of the text, and each fault is reported. -/
theorem decode_eq_error_iff {cause : HexError} : decode n ascii = .error cause ↔ Fault n ascii cause := by
  refine ⟨fun h => ?_, decode_of_fault⟩
  rcases digits_or_fault n ascii with ⟨hlen, hdigits⟩ | ⟨other, hfault⟩
  · obtain ⟨a, ha, -⟩ := decode_of_digits hlen hdigits
    rw [ha] at h
    cases h
  · rw [decode_of_fault hfault] at h
    exact Except.error.inj h ▸ hfault

/-- A text that is decoded has the right length and digits only, and its lower case is what is written again. -/
theorem digits_of_decode {a : Octets n} (h : decode n ascii = .ok a) :
    ascii.length = 2 * n ∧ (∀ b ∈ ascii, IsDigit (character b)) ∧
      a.bytes.flatMap digits = ascii.map fun b => (character b).toLower := by
  rcases digits_or_fault n ascii with ⟨hlen, hdigits⟩ | ⟨cause, hfault⟩
  · obtain ⟨a', ha, hwritten⟩ := decode_of_digits hlen hdigits
    obtain rfl := Except.ok.inj (h.symm.trans ha)
    exact ⟨hlen, hdigits, hwritten⟩
  · rw [decode_of_fault hfault] at h
    cases h

/-! ## Writing -/

/-- Each byte is written with two digits. -/
theorem length_flatMap_digits (bs : Bytes) : (bs.flatMap digits).length = 2 * bs.length := by
  induction bs with
  | nil => rfl
  | cons b bs ih =>
    rw [List.flatMap_cons, List.length_append, ih, List.length_cons]
    simp only [digits, List.length_cons, List.length_nil]
    omega

/-- All that is written is a lower-case digit. -/
theorem isDigit_of_mem_digits {bs : Bytes} {c : Char} (h : c ∈ bs.flatMap digits) : IsDigit c ∧ c.toLower = c := by
  obtain ⟨b, -, hc⟩ := List.mem_flatMap.1 h
  have hb := b.toNat_lt
  simp only [digits, List.mem_cons, List.not_mem_nil, or_false] at hc
  rcases hc with rfl | rfl <;> exact isDigit_digitChar (by omega)

/-- Different bytes have different digits. -/
theorem digits_inj {a b : UInt8} (h : digits a = digits b) : a = b := by
  have ha := a.toNat_lt
  have hb := b.toNat_lt
  simp only [digits, List.cons.injEq, and_true] at h
  have hhigh := digitChar_inj (by omega) (by omega) h.1
  have hlow := digitChar_inj (by omega) (by omega) h.2
  exact UInt8.toNat_inj.1 (by omega)

/-- Different byte strings are written differently. -/
theorem flatMap_digits_inj {as bs : Bytes} (h : as.flatMap digits = bs.flatMap digits) : as = bs := by
  induction as generalizing bs with
  | nil =>
    have hlen := congrArg List.length h
    rw [length_flatMap_digits, length_flatMap_digits, List.length_nil] at hlen
    exact (List.length_eq_zero_iff.1 (by omega)).symm
  | cons a as ih =>
    cases bs with
    | nil => simp [digits] at h
    | cons b bs =>
      rw [List.flatMap_cons, List.flatMap_cons] at h
      obtain ⟨hfirst, hrest⟩ := List.append_inj h rfl
      rw [digits_inj hfirst, ih hrest]

end Hex

namespace Key

theorem parse_of_decode_ok {s : String} {key : Key} (h : Hex.decode 20 (utf8 s) = .ok key) : parse s = .ok key := by
  unfold parse
  rw [h]
  rfl

/-- A text whose bytes are not decoded is refused with the fault as its cause. -/
theorem parse_of_decode_error {s : String} {cause : HexError} (h : Hex.decode 20 (utf8 s) = .error cause) :
    parse s = .error (.badHex cause) := by
  unfold parse
  rw [h]
  rfl

/-- The bytes of a text from which a key is read are decoded to it. -/
theorem decode_of_parse {s : String} {key : Key} (h : parse s = .ok key) : Hex.decode 20 (utf8 s) = .ok key := by
  cases hread : Hex.decode 20 (utf8 s) with
  | ok read => rw [Except.ok.inj ((parse_of_decode_ok hread).symm.trans h)]
  | error cause =>
    rw [parse_of_decode_error hread] at h
    cases h

/-- A text is refused for its fault and nothing else. -/
theorem parse_eq_error_iff {s : String} {e : KeyError} :
    parse s = .error e ↔ ∃ cause, e = .badHex cause ∧ Hex.Fault 20 (utf8 s) cause := by
  constructor
  · intro h
    cases hread : Hex.decode 20 (utf8 s) with
    | ok read =>
      rw [parse_of_decode_ok hread] at h
      cases h
    | error cause =>
      rw [parse_of_decode_error hread] at h
      exact ⟨cause, (Except.error.inj h).symm, Hex.decode_eq_error_iff.1 hread⟩
  · rintro ⟨cause, rfl, hfault⟩
    exact parse_of_decode_error (Hex.decode_of_fault hfault)

theorem toList_text (key : Key) : (text key).toList = key.bytes.flatMap Hex.digits := String.toList_ofList

theorem toList_toLower (s : String) : s.toLower.toList = s.toList.map Char.toLower := String.toList_map

/-- A text that is read as a key consists of digits, and the key is written as this text in lower case. -/
theorem text_of_parse {s : String} {key : Key} (h : parse s = .ok key) :
    s.length = 40 ∧ (∀ c ∈ s.toList, Hex.IsDigit c) ∧ text key = s.toLower := by
  obtain ⟨hlen, hdigits, hwritten⟩ := Hex.digits_of_decode (decode_of_parse h)
  rw [Hex.forall_mem_utf8_iff] at hdigits
  have hchars := Hex.map_character_utf8 hdigits
  refine ⟨?_, hdigits, ?_⟩
  · rw [← String.length_toList, ← hchars, List.length_map, hlen]
  · rw [← String.toList_inj, toList_text, hwritten, toList_toLower, ← hchars, List.map_map]
    rfl

/-- Every text of 40 digits is read as a key. -/
theorem exists_parse {s : String} (hlen : s.length = 40) (hdigits : ∀ c ∈ s.toList, Hex.IsDigit c) :
    ∃ key, parse s = .ok key := by
  have hbytes : (utf8 s).length = 2 * 20 := by
    rw [← List.length_map (f := Hex.character), Hex.map_character_utf8 hdigits, String.length_toList, hlen]
  obtain ⟨key, hkey, -⟩ := Hex.decode_of_digits hbytes ((Hex.forall_mem_utf8_iff s).2 hdigits)
  exact ⟨key, parse_of_decode_ok hkey⟩

/-- A key is read again from what is written of it. -/
theorem parse_text_self (key : Key) : parse (text key) = .ok key := by
  have hlen : (text key).length = 40 := by
    rw [← String.length_toList, toList_text, Hex.length_flatMap_digits, key.length_bytes]
  have hdigits : ∀ c ∈ (text key).toList, Hex.IsDigit c ∧ c.toLower = c := by
    rw [toList_text]
    exact fun c hc => Hex.isDigit_of_mem_digits hc
  obtain ⟨read, hread⟩ := exists_parse hlen fun c hc => (hdigits c hc).1
  -- the key read is written as the text that it was read from, so it is the key that was written
  have hwritten : (text read).toList = (text key).toList := by
    rw [(text_of_parse hread).2.2, toList_toLower]
    exact (List.map_congr_left fun c hc => (hdigits c hc).2).trans (List.map_id _)
  rw [toList_text, toList_text] at hwritten
  rw [hread, Octets.ext (Hex.flatMap_digits_inj hwritten)]

/-- A text is a key exactly if it has 40 characters, all of them hexadecimal digits of either case, and the key is then written as this
text in lower case; what is written for a key is read back as this key. Every other text is refused for its fault, and for that only,
lengths and positions being those of its UTF-8 bytes. -/
theorem parse_text :
    (∀ s, (∃ key, parse s = .ok key) ↔ s.length = 40 ∧ ∀ c ∈ s.toList, Hex.IsDigit c) ∧
      (∀ s key, parse s = .ok key → text key = s.toLower) ∧
      (∀ key, parse (text key) = .ok key) ∧
      ∀ s e, parse s = .error e ↔ ∃ cause, e = .badHex cause ∧ Hex.Fault 20 (utf8 s) cause := by
  refine ⟨fun s => ⟨?_, fun ⟨hlen, hdigits⟩ => exists_parse hlen hdigits⟩, fun s key h => (text_of_parse h).2.2, parse_text_self,
    fun s e => parse_eq_error_iff⟩
  rintro ⟨key, hkey⟩
  obtain ⟨hlen, hdigits, -⟩ := text_of_parse hkey
  exact ⟨hlen, hdigits⟩

/-- A text in both cases is read, and written in lower case. Of the 40 bytes of another text the one at position 37 begins a
character that takes two bytes. -/
theorem parse_text_of_both_cases :
    let mixed := "0BEEc7b5ea3f0fdbc95d0dd47f3c5bc275da8A33"
    let broken := "0beec7b5ea3f0fdbc95d0dd47f3c5bc275da8éa"
    (∃ key, parse mixed = .ok key ∧ text key = mixed.toLower) ∧
      Hex.Fault 20 (utf8 broken) (.badDigit 0xc3 37) ∧ parse broken = .error (.badHex (.badDigit 0xc3 37)) := by
  intro mixed broken
  have hlen : mixed.length = 40 := by decide +kernel
  have hdigits : mixed.toList.all (fun c => Hex.IsDigit c) = true := by decide +kernel
  have hbefore : ((utf8 broken).take 37).all (fun b => Hex.IsDigit (Hex.character b)) = true := by decide +kernel
  have hfault : Hex.Fault 20 (utf8 broken) (.badDigit 0xc3 37) :=
    ⟨by decide +kernel, by decide +kernel, by decide +kernel, fun b hb => of_decide_eq_true (List.all_eq_true.1 hbefore b hb)⟩
  obtain ⟨hread, hlower, -, hrefused⟩ := parse_text
  obtain ⟨key, hkey⟩ := (hread mixed).2 ⟨hlen, fun c hc => of_decide_eq_true (List.all_eq_true.1 hdigits c hc)⟩
  exact ⟨⟨key, hkey, hlower mixed key hkey⟩, hfault, (hrefused broken _).2 ⟨_, rfl, hfault⟩⟩

end Key

end Kademlia
