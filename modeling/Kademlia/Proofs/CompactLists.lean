import Kademlia.Compact
import Kademlia.Proofs.Numeric

/-!
# Lists of compact contacts, there and back

The writer of a list appends one form after the other and never looks at a length; the reader cuts by length and never looks at a
family. They fit because of two facts about one contact: its form is read back as the contact without flow label and scope, and
every byte string of the length of a form is the form of such a contact. A list is then read off its front, entry by entry.
-/

namespace Kademlia

/-! ## One contact -/

namespace Compact

/-- The two bytes of a port are read back as the port. -/
theorem port_bytes (port : UInt16) : UInt16.ofNat (Bytes.toNat (Bytes.ofNat 2 port.toNat)) = port := by
  have hlt : port.toNat < 256 ^ 2 := port.toNat_lt
  rw [Bytes.toNat_ofNat, Nat.mod_eq_of_lt hlt, UInt16.ofNat_toNat]

/-- Any two bytes are those of a port. -/
theorem bytes_port {bs : Bytes} (h : bs.length = 2) : Bytes.ofNat 2 (UInt16.ofNat (Bytes.toNat bs)).toNat = bs := by
  have hlt : Bytes.toNat bs < 2 ^ 16 := by
    have := Bytes.toNat_lt bs
    rwa [h] at this
  rw [UInt16.toNat_ofNat', Nat.mod_eq_of_lt hlt, ← h]
  exact Bytes.ofNat_toNat bs

/-- Reading one entry gives the contact that was written, without its flow label and its scope. -/
theorem decode?_encode (c : Contact) : decode? (encode c) = some c.bare := by
  have hid : c.id.bytes.length = 20 := c.id.length_bytes
  have hport : (Bytes.ofNat 2 c.address.port.toNat).length = 2 := Bytes.length_ofNat _ _
  unfold decode? encode
  simp only [List.append_assoc, List.take_left' hid, List.drop_left' hid, Octets.ofBytes?_bytes, List.length_append, hport,
    Nat.add_sub_cancel, List.take_left, List.drop_left, port_bytes, Address.ofIp?_ip]
  rw [guard, if_pos (Nat.le_add_left _ _)]
  rfl

/-- Every byte string of the length of an entry is the entry of a contact of the family. -/
theorem exists_encode_eq {family : Family} {bs : Bytes} (h : bs.length = entrySize family) :
    ∃ c : Contact, c.family = family ∧ c.bare = c ∧ encode c = bs := by
  cases family with
  | v4 =>
    have hlen : bs.length = 26 := h
    refine ⟨⟨⟨bs.take 20, by simp [hlen]⟩, .v4 ⟨(bs.drop 20).take 4, by simp [hlen]⟩
      (UInt16.ofNat (Bytes.toNat ((bs.drop 20).drop 4)))⟩, rfl, rfl, ?_⟩
    simp only [encode, Address.ip, Address.port]
    rw [bytes_port (by simp [hlen]), List.append_assoc, List.take_append_drop, List.take_append_drop]
  | v6 =>
    have hlen : bs.length = 38 := h
    refine ⟨⟨⟨bs.take 20, by simp [hlen]⟩, .v6 ⟨(bs.drop 20).take 16, by simp [hlen]⟩
      (UInt16.ofNat (Bytes.toNat ((bs.drop 20).drop 16))) 0 0⟩, rfl, rfl, ?_⟩
    simp only [encode, Address.ip, Address.port]
    rw [bytes_port (by simp [hlen]), List.append_assoc, List.take_append_drop, List.take_append_drop]

/-! ## Lists -/

theorem entrySize_pos (family : Family) : 0 < entrySize family := by cases family <;> decide

/-- The writer stops at the first contact of the other family, and otherwise writes one entry after the other. -/
theorem encodeList_eq (family : Family) (cs : List Contact) :
    encodeList family cs =
      match cs.find? (fun c => c.family ≠ family) with
      | some c => .error c
      | none => .ok (cs.flatMap encode) := by
  induction cs with
  | nil => rfl
  | cons c cs ih =>
    by_cases hc : c.family = family
    · rw [encodeList, if_neg (not_not_intro hc), ih, List.find?_cons_of_neg (by simpa using hc)]
      cases cs.find? (fun c => c.family ≠ family) <;> rfl
    · rw [encodeList, if_pos hc, List.find?_cons_of_pos (by simpa using hc)]
      rfl

/-- Contacts of one family are encoded one after the other. -/
theorem encodeList_of_forall {family : Family} {cs : List Contact} (h : ∀ c ∈ cs, c.family = family) :
    encodeList family cs = .ok (cs.flatMap encode) := by
  have hnone : cs.find? (fun c => c.family ≠ family) = none := List.find?_eq_none.2 fun c hc => by simp [h c hc]
  rw [encodeList_eq, hnone]

/-- A list that begins with one whole entry is that entry and the list that the rest is. -/
theorem decodeList?_append {family : Family} {entry : Bytes} (h : entry.length = entrySize family) (rest : Bytes) :
    decodeList? family (entry ++ rest) = do
      let c ← decode? entry
      let cs ← decodeList? family rest
      return c :: cs := by
  unfold decodeList?
  simp only [List.length_append, h, Nat.add_mod_left, Nat.add_div_left _ (entrySize_pos family), pieces, List.take_left' h,
    List.drop_left' h, List.mapM_cons]
  split
  · rfl
  · cases decode? entry <;> rfl

/-- Bytes that are not whole entries are not decoded. -/
theorem decodeList?_of_not_dvd {family : Family} {bs : Bytes} (h : ¬entrySize family ∣ bs.length) :
    decodeList? family bs = none :=
  if_neg fun hmod => h (Nat.dvd_of_mod_eq_zero hmod)

/-- Reading the entries of contacts of one family gives the contacts without their flow labels and scopes. -/
theorem decodeList?_flatMap {family : Family} {cs : List Contact} (h : ∀ c ∈ cs, c.family = family) :
    decodeList? family (cs.flatMap encode) = some (cs.map Contact.bare) := by
  induction cs with
  | nil => simp [decodeList?, pieces]
  | cons c cs ih =>
    obtain ⟨hc, hcs⟩ := List.forall_mem_cons.1 h
    have hlen : (encode c).length = entrySize family := by rw [length_encode, hc]
    rw [List.flatMap_cons, decodeList?_append hlen, decode?_encode, ih hcs]
    rfl

/-- A list that has a compact form and comes back from it unchanged: contacts of the one family, without flow label and scope. -/
def Plain (family : Family) (cs : List Contact) : Prop := ∀ c ∈ cs, c.family = family ∧ c.bare = c

/-- Contacts without flow and scope lose nothing. -/
theorem Plain.map_bare {family : Family} {cs : List Contact} (h : Plain family cs) : cs.map Contact.bare = cs :=
  List.map_congr_left (fun c hc => (h c hc).2) |>.trans (List.map_id cs)

/-- Every byte string that is cut into whole entries is written from a plain list. -/
theorem exists_flatMap_eq {family : Family} {bs : Bytes} (h : entrySize family ∣ bs.length) :
    ∃ cs, Plain family cs ∧ cs.flatMap encode = bs := by
  obtain ⟨count, hcount⟩ := h
  induction count generalizing bs with
  | zero => exact ⟨[], by simp [Plain], (List.length_eq_zero_iff.1 hcount).symm⟩
  | succ count ih =>
    have hle : entrySize family ≤ bs.length := by rw [hcount]; exact Nat.le_mul_of_pos_right _ (Nat.succ_pos count)
    have hfirst : (bs.take (entrySize family)).length = entrySize family := by simpa using hle
    have hlater : (bs.drop (entrySize family)).length = entrySize family * count := by
      rw [List.length_drop, hcount, Nat.mul_succ, Nat.add_sub_cancel]
    obtain ⟨c, hfamily, hbare, hentry⟩ := exists_encode_eq hfirst
    obtain ⟨cs, hplain, hrest⟩ := ih hlater
    refine ⟨c :: cs, List.forall_mem_cons.2 ⟨⟨hfamily, hbare⟩, hplain⟩, ?_⟩
    rw [List.flatMap_cons, hentry, hrest, List.take_append_drop]

/-- What is read was plain, and is written as the bytes it was read from. -/
theorem of_decodeList? {family : Family} {bs : Bytes} {cs : List Contact} (h : decodeList? family bs = some cs) :
    Plain family cs ∧ cs.flatMap encode = bs := by
  have hdvd : entrySize family ∣ bs.length := by
    by_contra hcut
    rw [decodeList?_of_not_dvd hcut] at h
    cases h
  obtain ⟨written, hplain, rfl⟩ := exists_flatMap_eq hdvd
  rw [decodeList?_flatMap fun c hc => (hplain c hc).1, hplain.map_bare] at h
  obtain rfl := Option.some.inj h
  exact ⟨hplain, rfl⟩

/-- For each family the writer and the reader of lists are inverse to each other, between the lists of its contacts without flow
label and scope and the byte strings that are cut into whole entries. A contact that has one of these is read back without it. The
reader fails on no other byte strings, and the writer on a contact of the other family only: it names the first one. -/
theorem lists_inverse (family : Family) :
    (∀ cs bs, Plain family cs ∧ encodeList family cs = .ok bs ↔ decodeList? family bs = some cs) ∧
      (∀ cs, (∀ c ∈ cs, c.family = family) →
        ∃ bs, encodeList family cs = .ok bs ∧ decodeList? family bs = some (cs.map Contact.bare)) ∧
      (∀ bs, decodeList? family bs = none ↔ ¬entrySize family ∣ bs.length) ∧
      ∀ cs c, encodeList family cs = .error c ↔ cs.find? (fun c => c.family ≠ family) = some c := by
  refine ⟨fun cs bs => ⟨?_, ?_⟩, fun cs h => ⟨_, encodeList_of_forall h, decodeList?_flatMap h⟩, fun bs => ⟨?_, ?_⟩,
    fun cs c => ?_⟩
  · rintro ⟨hplain, hwritten⟩
    rw [encodeList_of_forall fun c hc => (hplain c hc).1] at hwritten
    obtain rfl := Except.ok.inj hwritten
    rw [decodeList?_flatMap fun c hc => (hplain c hc).1, hplain.map_bare]
  · intro hread
    obtain ⟨hplain, rfl⟩ := of_decodeList? hread
    exact ⟨hplain, encodeList_of_forall fun c hc => (hplain c hc).1⟩
  · intro hnone hdvd
    obtain ⟨cs, hplain, rfl⟩ := exists_flatMap_eq hdvd
    rw [decodeList?_flatMap fun c hc => (hplain c hc).1] at hnone
    cases hnone
  · exact decodeList?_of_not_dvd
  · rw [encodeList_eq]
    cases cs.find? (fun c => c.family ≠ family) <;> simp

/-- The endpoint `::ffff:127.0.0.1`, port 6881, with a flow label and a scope, keeps its sixteen bytes and loses only these two. -/
theorem lists_inverse_of_embedded :
    let ip : Octets 16 := ⟨List.replicate 10 0 ++ [255, 255, 127, 0, 0, 1], rfl⟩
    let contact : Contact := ⟨Octets.lowest 20, .v6 ip 6881 7 3⟩
    (∀ c ∈ [contact], c.family = .v6) ∧
      ∃ bs, encodeList .v6 [contact] = .ok bs ∧ decodeList? .v6 bs = some [⟨Octets.lowest 20, .v6 ip 6881 0 0⟩] := by
  intro ip contact
  have hfamily : ∀ c ∈ [contact], c.family = .v6 := List.forall_mem_singleton.2 rfl
  exact ⟨hfamily, (lists_inverse .v6).2.1 [contact] hfamily⟩

end Compact

end Kademlia
