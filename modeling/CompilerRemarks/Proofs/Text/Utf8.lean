/-
  CompilerRemarks.Proofs.Text.Utf8

  Strict decoding of UTF-8 takes exactly the bytes that encode some text, and
  gives that text back (`decode?_eq_some_iff`).

  Between the decoder and the encoder stands the table of well-formed byte
  sequences (`Form`): the decoder reads a character where a row of the table
  applies (`form_of_head`, `head_of_form`), and the encoder writes the rows
  (`form_encodeChar`, `Form.encodeChar_ofNat`). The encoder is also that of
  the strings themselves, so decoding is reading bytes as a string
  (`map_ofList_decode?`).
-/
import CompilerRemarks.Text.Utf8

namespace CompilerRemarks.Text.Utf8

/-! ## Bytes and numbers -/

theorem toNat_ofNat {n : Nat} (h : n.isValidChar) : (Char.ofNat n).toNat = n := by
  rw [Char.ofNat, dif_pos h]
  rfl

theorem toNat_toUInt8 {k : Nat} (h : k < 0x100) : k.toUInt8.toNat = k := by
  rw [Nat.toUInt8_eq, UInt8.toNat_ofNat_of_lt' h]

theorem toUInt8_of_toNat_eq {k : Nat} {a : UInt8} (h : a.toNat = k) : k.toUInt8 = a := by
  rw [← h, Nat.toUInt8_eq, UInt8.ofNat_toNat]

theorem mem_range_iff (lead lo hi : UInt8) :
    (lo ≤ lead && lead ≤ hi) = true ↔ lo.toNat ≤ lead.toNat ∧ lead.toNat ≤ hi.toNat := by
  simp [UInt8.le_iff_toNat_le]

theorem isTail_iff (b : UInt8) : isTail b = true ↔ 0x80 ≤ b.toNat ∧ b.toNat ≤ 0xBF :=
  mem_range_iff b 0x80 0xBF

theorem tailBits_of_isTail {b : UInt8} (h : isTail b = true) :
    b.toNat = 0x80 + tailBits b ∧ tailBits b < 0x40 := by
  have hb := (isTail_iff b).mp h
  simp only [tailBits]
  omega

theorem isTail_toUInt8 {k : Nat} (h : k < 0x40) :
    isTail (0x80 + k).toUInt8 = true ∧ tailBits (0x80 + k).toUInt8 = k := by
  rw [isTail_iff, tailBits, toNat_toUInt8 (by omega)]
  omega

/-- The second byte of a longer character is a continuation byte that shuts
    out overlong forms, surrogates and values above the greatest. -/
theorem mem_secondRange_iff (lead b : UInt8) :
    ((secondRange lead).1 ≤ b && b ≤ (secondRange lead).2) = true ↔
      isTail b = true ∧ (lead.toNat = 0xE0 → 0xA0 ≤ b.toNat) ∧
        (lead.toNat = 0xED → b.toNat ≤ 0x9F) ∧ (lead.toNat = 0xF0 → 0x90 ≤ b.toNat) ∧
        (lead.toNat = 0xF4 → b.toNat ≤ 0x8F) := by
  have hE0 : lead = 0xE0 ↔ lead.toNat = 0xE0 := by rw [← UInt8.toNat_inj]; rfl
  have hED : lead = 0xED ↔ lead.toNat = 0xED := by rw [← UInt8.toNat_inj]; rfl
  have hF0 : lead = 0xF0 ↔ lead.toNat = 0xF0 := by rw [← UInt8.toNat_inj]; rfl
  have hF4 : lead = 0xF4 ↔ lead.toNat = 0xF4 := by rw [← UInt8.toNat_inj]; rfl
  rw [mem_range_iff, isTail_iff]
  simp only [secondRange, beq_iff_eq, hE0, hED, hF0, hF4]
  -- one case for each special leading byte, and one for all others
  split
  · simp only [UInt8.reduceToNat]; omega
  · split
    · simp only [UInt8.reduceToNat]; omega
    · split
      · simp only [UInt8.reduceToNat]; omega
      · split <;> simp only [UInt8.reduceToNat] <;> omega

/-! ## Well-formed byte sequences -/

/-- The well-formed bytes of one character, with its value: a row for each
    number of bytes. -/
inductive Form : Nat → List UInt8 → Prop where
  | one {a : UInt8} : a.toNat < 0x80 → Form a.toNat [a]
  | two {a b : UInt8} : 0xC2 ≤ a.toNat → a.toNat ≤ 0xDF → isTail b →
      Form (a.toNat % 0x20 * 0x40 + tailBits b) [a, b]
  | three {a b c : UInt8} : 0xE0 ≤ a.toNat → a.toNat ≤ 0xEF → isTail b → isTail c →
      (a.toNat = 0xE0 → 0xA0 ≤ b.toNat) → (a.toNat = 0xED → b.toNat ≤ 0x9F) →
      Form (a.toNat % 0x10 * 0x1000 + tailBits b * 0x40 + tailBits c) [a, b, c]
  | four {a b c d : UInt8} : 0xF0 ≤ a.toNat → a.toNat ≤ 0xF4 → isTail b → isTail c → isTail d →
      (a.toNat = 0xF0 → 0x90 ≤ b.toNat) → (a.toNat = 0xF4 → b.toNat ≤ 0x8F) →
      Form (a.toNat % 0x08 * 0x40000 + tailBits b * 0x1000 + tailBits c * 0x40 + tailBits d)
        [a, b, c, d]

namespace Form

variable {n : Nat} {bytes : List UInt8}

theorem ne_nil (h : Form n bytes) : bytes ≠ [] := by
  cases h <;> exact List.cons_ne_nil _ _

theorem isValidChar (h : Form n bytes) : n.isValidChar := by
  cases h with
  | one ha =>
    simp only [Nat.isValidChar]
    omega
  | two hlo hhi hb =>
    have := tailBits_of_isTail hb
    simp only [Nat.isValidChar]
    omega
  | three hlo hhi hb hc hover hsurrogate =>
    have := tailBits_of_isTail hb
    have := tailBits_of_isTail hc
    simp only [Nat.isValidChar]
    omega
  | four hlo hhi hb hc hd hover hgreatest =>
    have := tailBits_of_isTail hb
    have := tailBits_of_isTail hc
    have := tailBits_of_isTail hd
    simp only [Nat.isValidChar]
    omega

/-- The bytes of a row are those that the encoder writes for its value. -/
theorem encodeChar_ofNat (h : Form n bytes) : encodeChar (Char.ofNat n) = bytes := by
  rw [encodeChar, toNat_ofNat h.isValidChar]
  cases h with
  | one ha => simp [ha]
  | two hlo hhi hb =>
    have := tailBits_of_isTail hb
    rw [if_neg (by omega), if_pos (by omega)]
    congr 1
    · exact toUInt8_of_toNat_eq (by omega)
    · congr 1
      exact toUInt8_of_toNat_eq (by omega)
  | three hlo hhi hb hc hover hsurrogate =>
    have := tailBits_of_isTail hb
    have := tailBits_of_isTail hc
    rw [if_neg (by omega), if_neg (by omega), if_pos (by omega)]
    congr 1
    · exact toUInt8_of_toNat_eq (by omega)
    · congr 1
      · exact toUInt8_of_toNat_eq (by omega)
      · congr 1
        exact toUInt8_of_toNat_eq (by omega)
  | four hlo hhi hb hc hd hover hgreatest =>
    have := tailBits_of_isTail hb
    have := tailBits_of_isTail hc
    have := tailBits_of_isTail hd
    rw [if_neg (by omega), if_neg (by omega), if_neg (by omega)]
    congr 1
    · exact toUInt8_of_toNat_eq (by omega)
    · congr 1
      · exact toUInt8_of_toNat_eq (by omega)
      · congr 1
        · exact toUInt8_of_toNat_eq (by omega)
        · congr 1
          exact toUInt8_of_toNat_eq (by omega)

end Form

/-- The encoder writes a row of the table for every character. -/
theorem form_encodeChar (c : Char) : Form c.toNat (encodeChar c) := by
  have hvalid : c.toNat.isValidChar := c.valid
  simp only [Nat.isValidChar] at hvalid
  rw [encodeChar]
  generalize c.toNat = n at hvalid ⊢
  split
  · have ha : n.toUInt8.toNat = n := toNat_toUInt8 (by omega)
    have h := Form.one (a := n.toUInt8) (by omega)
    rwa [ha] at h
  · split
    · have ha : (0xC0 + n / 0x40).toUInt8.toNat = 0xC0 + n / 0x40 := toNat_toUInt8 (by omega)
      obtain ⟨hb, hbits⟩ := isTail_toUInt8 (k := n % 0x40) (by omega)
      have h := Form.two (a := (0xC0 + n / 0x40).toUInt8) (by omega) (by omega) hb
      have hn : (0xC0 + n / 0x40) % 0x20 * 0x40 + n % 0x40 = n := by omega
      rwa [ha, hbits, hn] at h
    · split
      · have ha : (0xE0 + n / 0x1000).toUInt8.toNat = 0xE0 + n / 0x1000 :=
          toNat_toUInt8 (by omega)
        obtain ⟨hb, hbits⟩ := isTail_toUInt8 (k := n / 0x40 % 0x40) (by omega)
        obtain ⟨hc, hcits⟩ := isTail_toUInt8 (k := n % 0x40) (by omega)
        have hsecond := tailBits_of_isTail hb
        have h := Form.three (a := (0xE0 + n / 0x1000).toUInt8) (by omega) (by omega) hb hc
          (by omega) (by omega)
        have hn : (0xE0 + n / 0x1000) % 0x10 * 0x1000 + n / 0x40 % 0x40 * 0x40 + n % 0x40 = n := by
          omega
        rwa [ha, hbits, hcits, hn] at h
      · have ha : (0xF0 + n / 0x40000).toUInt8.toNat = 0xF0 + n / 0x40000 :=
          toNat_toUInt8 (by omega)
        obtain ⟨hb, hbits⟩ := isTail_toUInt8 (k := n / 0x1000 % 0x40) (by omega)
        obtain ⟨hc, hcits⟩ := isTail_toUInt8 (k := n / 0x40 % 0x40) (by omega)
        obtain ⟨hd, hdits⟩ := isTail_toUInt8 (k := n % 0x40) (by omega)
        have hsecond := tailBits_of_isTail hb
        have h := Form.four (a := (0xF0 + n / 0x40000).toUInt8) (by omega) (by omega) hb hc hd
          (by omega) (by omega)
        have hn : (0xF0 + n / 0x40000) % 0x08 * 0x40000 + n / 0x1000 % 0x40 * 0x1000 +
            n / 0x40 % 0x40 * 0x40 + n % 0x40 = n := by
          omega
        rwa [ha, hbits, hcits, hdits, hn] at h

/-! ## Reading one character -/

/-- A row of the table at the head of some bytes is read. -/
theorem head_of_form {n : Nat} {lead : UInt8} {tail : List UInt8} (h : Form n (lead :: tail))
    (rest : List UInt8) : head lead (tail ++ rest) = .char (Char.ofNat n) (tail.length + 1) := by
  have h80 : lead < 0x80 ↔ lead.toNat < 0x80 := UInt8.lt_iff_toNat_lt
  have hC2 := mem_range_iff lead 0xC2 0xDF
  have hE0 := mem_range_iff lead 0xE0 0xEF
  have hF0 := mem_range_iff lead 0xF0 0xF4
  simp only [UInt8.reduceToNat] at hC2 hE0 hF0
  cases h with
  | one ha =>
    rw [head.eq_def, if_pos (h80.mpr ha)]
    rfl
  | two hlo hhi hb =>
    rw [head.eq_def, if_neg (mt h80.mp (by omega)), if_pos (hC2.mpr ⟨hlo, hhi⟩)]
    simp only [List.cons_append, hb, if_true]
    rfl
  | @three _ b c hlo hhi hb hc hover hsurrogate =>
    have hsecond : ((secondRange lead).1 ≤ b && b ≤ (secondRange lead).2) = true :=
      (mem_secondRange_iff lead b).mpr ⟨hb, hover, hsurrogate, by omega, by omega⟩
    rw [head.eq_def, if_neg (mt h80.mp (by omega)), if_neg (mt hC2.mp (by omega)),
      if_pos (hE0.mpr ⟨hlo, hhi⟩)]
    simp only [List.cons_append, hsecond, hc, if_true]
    rfl
  | @four _ b c d hlo hhi hb hc hd hover hgreatest =>
    have hsecond : ((secondRange lead).1 ≤ b && b ≤ (secondRange lead).2) = true :=
      (mem_secondRange_iff lead b).mpr ⟨hb, by omega, by omega, hover, hgreatest⟩
    rw [head.eq_def, if_neg (mt h80.mp (by omega)), if_neg (mt hC2.mp (by omega)),
      if_neg (mt hE0.mp (by omega)), if_pos (hF0.mpr ⟨hlo, hhi⟩)]
    simp only [List.cons_append, hsecond, hc, hd, if_true]
    rfl

/-- A character is read only where a row of the table applies. -/
theorem form_of_head {lead : UInt8} {rest : List UInt8} {c : Char} {width : Nat}
    (h : head lead rest = .char c width) :
    ∃ n tail rest', rest = tail ++ rest' ∧ width = tail.length + 1 ∧ Form n (lead :: tail) ∧
      c = Char.ofNat n := by
  have hC2 := mem_range_iff lead 0xC2 0xDF
  have hE0 := mem_range_iff lead 0xE0 0xEF
  have hF0 := mem_range_iff lead 0xF0 0xF4
  simp only [UInt8.reduceToNat] at hC2 hE0 hF0
  revert h
  fun_cases head lead rest with
  | case1 rest h80 =>
    rintro ⟨⟩
    exact ⟨lead.toNat, [], rest, rfl, rfl, .one (UInt8.lt_iff_toNat_lt.mp h80), rfl⟩
  | case2 _ hlead b tail hb =>
    rintro ⟨⟩
    obtain ⟨hlo, hhi⟩ := hC2.mp hlead
    exact ⟨_, [b], tail, rfl, rfl, .two hlo hhi hb, rfl⟩
  | case5 _ _ hlead lo hi hrange b hsecond c tail hc =>
    rintro ⟨⟩
    obtain ⟨hlo, hhi⟩ := hE0.mp hlead
    obtain ⟨hb, hover, hsurrogate, -⟩ :=
      (mem_secondRange_iff lead b).mp (by rw [hrange]; exact hsecond)
    exact ⟨_, [b, c], tail, rfl, rfl, .three hlo hhi hb hc hover hsurrogate, rfl⟩
  | case10 _ _ _ hlead lo hi hrange b hsecond c hc d tail hd =>
    rintro ⟨⟩
    obtain ⟨hlo, hhi⟩ := hF0.mp hlead
    obtain ⟨hb, -, -, hover, hgreatest⟩ :=
      (mem_secondRange_iff lead b).mp (by rw [hrange]; exact hsecond)
    exact ⟨_, [b, c, d], tail, rfl, rfl, .four hlo hhi hb hc hd hover hgreatest, rfl⟩
  | _ => nofun

/-! ## Reading a text -/

theorem decodeFrom?_eq_drop (skip : Nat) (bytes : List UInt8) :
    decodeFrom? skip bytes = decode? (bytes.drop skip) := by
  induction bytes generalizing skip with
  | nil => cases skip <;> rfl
  | cons b rest ih =>
    cases skip with
    | zero => rfl
    | succ skip => exact ih skip

theorem decode?_encodeChar_append (c : Char) (rest : List UInt8) :
    decode? (encodeChar c ++ rest) = (decode? rest).map (c :: ·) := by
  have hform := form_encodeChar c
  obtain ⟨lead, tail, hbytes⟩ := List.exists_cons_of_ne_nil hform.ne_nil
  rw [hbytes] at hform
  have hhead := head_of_form hform rest
  rw [Char.ofNat_toNat] at hhead
  rw [hbytes, List.cons_append, decode?, decodeFrom?, hhead]
  simp only [Nat.add_sub_cancel, decodeFrom?_eq_drop, List.drop_left]

theorem decode?_encode (s : List Char) : decode? (encode s) = some s := by
  induction s with
  | nil => rfl
  | cons c rest ih =>
    have hcons : encode (c :: rest) = encodeChar c ++ encode rest := List.flatMap_cons
    rw [hcons, decode?_encodeChar_append, ih, Option.map_some]

theorem encode_of_decode? {bytes : List UInt8} {s : List Char} (h : decode? bytes = some s) :
    encode s = bytes := by
  -- on the number of bytes: a character takes at least one
  induction hlen : bytes.length using Nat.strongRecOn generalizing bytes s with
  | ind n ih =>
    cases bytes with
    | nil => cases h; rfl
    | cons lead rest =>
      rw [decode?, decodeFrom?] at h
      split at h
      · rename_i c width hhead
        obtain ⟨k, tail, rest', rfl, rfl, hform, rfl⟩ := form_of_head hhead
        rw [Nat.add_sub_cancel, decodeFrom?_eq_drop, List.drop_left] at h
        obtain ⟨t, ht, rfl⟩ := Option.map_eq_some_iff.mp h
        have hlt : rest'.length < n := by
          rw [← hlen, List.length_cons, List.length_append]
          omega
        have hrest := ih rest'.length hlt ht rfl
        rw [encode, List.flatMap_cons, hform.encodeChar_ofNat]
        exact congrArg ((lead :: tail) ++ ·) hrest
      · cases h

/-- Strict decoding takes the bytes of a text and no others. -/
theorem decode?_eq_some_iff {bytes : List UInt8} {s : List Char} :
    decode? bytes = some s ↔ bytes = encode s :=
  ⟨fun h => (encode_of_decode? h).symm, fun h => h ▸ decode?_encode s⟩

/-! ## The bytes of a string -/

theorem encodeChar_eq_utf8EncodeChar (c : Char) : encodeChar c = String.utf8EncodeChar c := by
  have hvalid : c.toNat.isValidChar := c.valid
  simp only [Nat.isValidChar] at hvalid
  have h1 : c.toNat < 0x80 ↔ c.toNat ≤ 0x7F := by omega
  have h2 : c.toNat < 0x800 ↔ c.toNat ≤ 0x7FF := by omega
  have h3 : c.toNat < 0x10000 ↔ c.toNat ≤ 0xFFFF := by omega
  simp only [encodeChar, String.utf8EncodeChar, Char.toNat_val, Nat.toUInt8_eq, h1, h2, h3]
  split
  · rfl
  · split
    · have hlead : c.toNat / 64 % 0x20 = c.toNat / 64 := by omega
      rw [hlead, Nat.add_comm, Nat.add_comm 0x80]
    · split
      · have hlead : c.toNat / 4096 % 0x10 = c.toNat / 4096 := by omega
        rw [hlead]
        simp only [Nat.add_comm]
      · have hlead : c.toNat / 262144 % 0x08 = c.toNat / 262144 := by omega
        rw [hlead]
        simp only [Nat.add_comm]

theorem toByteArray_encode (s : List Char) : (encode s).toByteArray = s.utf8Encode := by
  rw [encode, funext encodeChar_eq_utf8EncodeChar, List.utf8Encode]

/-- Strict decoding is reading bytes as a string: it takes the same bytes and
    gives the same text. -/
theorem map_ofList_decode? (bytes : List UInt8) :
    (decode? bytes).map String.ofList = String.fromUTF8? bytes.toByteArray := by
  unfold String.fromUTF8?
  split
  · rename_i hvalid
    obtain ⟨s, hs⟩ := hvalid
    rw [← toByteArray_encode, List.toByteArray_inj] at hs
    rw [decode?_eq_some_iff.mpr hs, Option.map_some, Option.some_inj, ← String.toByteArray_inj,
      String.toByteArray_ofList, ← toByteArray_encode, ← hs]
    rfl
  · rename_i hinvalid
    cases hdecoded : decode? bytes with
    | none => rfl
    | some s =>
      refine absurd ⟨s, ?_⟩ hinvalid
      rw [← toByteArray_encode, decode?_eq_some_iff.mp hdecoded]

end CompilerRemarks.Text.Utf8
