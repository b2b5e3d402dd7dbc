/-
  CompilerRemarks.Proofs.Text.Offset

  Where the characters of a text stand among its bytes. An ASCII byte is a
  character of its own (`encodeChar_cases`), so its offset divides the text
  between two characters (`exists_split_of_getElem?`). At such offsets a text
  can be cut (`divide?`), and a search for bytes that belong to whole
  characters finds them (`takeWhile_encode`). Lossy decoding substitutes
  nothing in the bytes of a text (`decodeLossy_encode`).
-/
import CompilerRemarks.Proofs.Text.Utf8

namespace CompilerRemarks.Text.Utf8

/-! ## The bytes of a character -/

theorem encodeChar_of_lt {c : Char} (h : c.toNat < 0x80) : encodeChar c = [c.toNat.toUInt8] := by
  rw [encodeChar, if_pos h]

theorem encodeChar_ne_nil (c : Char) : encodeChar c ≠ [] :=
  (form_encodeChar c).ne_nil

/-- No byte of a longer character is an ASCII byte. -/
theorem le_of_mem_encodeChar {c : Char} (h : 0x80 ≤ c.toNat) {b : UInt8}
    (hb : b ∈ encodeChar c) : 0x80 ≤ b.toNat := by
  have htail : ∀ {x : UInt8}, isTail x = true → 0x80 ≤ x.toNat :=
    fun hx => ((isTail_iff _).mp hx).1
  have hform := form_encodeChar c
  revert hb
  generalize encodeChar c = bytes at hform ⊢
  generalize hn : c.toNat = n at hform
  intro hb
  cases hform with
  | one ha => omega
  | two hlo _ hsecond =>
    simp only [List.mem_cons, List.not_mem_nil, or_false] at hb
    rcases hb with rfl | rfl
    · omega
    · exact htail hsecond
  | three hlo _ hsecond hthird =>
    simp only [List.mem_cons, List.not_mem_nil, or_false] at hb
    rcases hb with rfl | rfl | rfl
    · omega
    · exact htail hsecond
    · exact htail hthird
  | four hlo _ hsecond hthird hfourth =>
    simp only [List.mem_cons, List.not_mem_nil, or_false] at hb
    rcases hb with rfl | rfl | rfl | rfl
    · omega
    · exact htail hsecond
    · exact htail hthird
    · exact htail hfourth

/-- A character is one ASCII byte, or it has no ASCII byte. -/
theorem encodeChar_cases (c : Char) :
    (∃ b : UInt8, b.toNat < 0x80 ∧ encodeChar c = [b] ∧ c = Char.ofNat b.toNat) ∨
      ∀ b ∈ encodeChar c, 0x80 ≤ b.toNat := by
  by_cases h : c.toNat < 0x80
  · have hnat : c.toNat.toUInt8.toNat = c.toNat := toNat_toUInt8 (by omega)
    refine .inl ⟨c.toNat.toUInt8, by omega, encodeChar_of_lt h, ?_⟩
    rw [hnat, Char.ofNat_toNat]
  · exact .inr fun b hb => le_of_mem_encodeChar (by omega) hb

/-! ## The bytes of a text -/

theorem encode_nil : encode [] = [] := rfl

theorem encode_cons (c : Char) (s : List Char) : encode (c :: s) = encodeChar c ++ encode s :=
  List.flatMap_cons

theorem encode_append (s t : List Char) : encode (s ++ t) = encode s ++ encode t :=
  List.flatMap_append

theorem length_encode (s : List Char) : (encode s).length = size s := by
  induction s with
  | nil => rfl
  | cons c rest ih => rw [encode_cons, List.length_append, ih, size]

theorem size_append (s t : List Char) : size (s ++ t) = size s + size t := by
  rw [← length_encode, encode_append, List.length_append, length_encode, length_encode]

theorem size_concat (s : List Char) (c : Char) :
    size (s ++ [c]) = size s + (encodeChar c).length :=
  size_append s [c]

/-- An ASCII byte of a text is one of its characters, and stands behind the
    bytes of the characters before it. -/
theorem exists_split_of_getElem? {s : List Char} {i : Nat} {b : UInt8}
    (hb : (encode s)[i]? = some b) (hascii : b.toNat < 0x80) :
    ∃ pre post, s = pre ++ Char.ofNat b.toNat :: post ∧ size pre = i ∧
      encodeChar (Char.ofNat b.toNat) = [b] := by
  induction s generalizing i with
  | nil => exact absurd hb (by simp [encode_nil])
  | cons c rest ih =>
    rw [encode_cons] at hb
    by_cases hi : i < (encodeChar c).length
    · rw [List.getElem?_append_left hi] at hb
      rcases encodeChar_cases c with ⟨a, -, ha, hc⟩ | hlong
      · rw [ha] at hi hb
        obtain rfl : i = 0 := by simpa using hi
        obtain rfl : a = b := by simpa using hb
        exact ⟨[], rest, by rw [← hc]; rfl, rfl, by rw [← hc, ha]⟩
      · have := hlong b (List.mem_of_getElem? hb)
        omega
    · rw [List.getElem?_append_right (by omega)] at hb
      obtain ⟨pre, post, hrest, hsize, hchar⟩ := ih hb
      refine ⟨c :: pre, post, by rw [hrest]; rfl, ?_, hchar⟩
      rw [size, hsize]
      omega

theorem exists_split_behind {s : List Char} {i : Nat} {b : UInt8}
    (hb : (encode s)[i]? = some b) (hascii : b.toNat < 0x80) :
    ∃ front back, s = front ++ back ∧ size front = i + 1 := by
  obtain ⟨pre, post, rfl, hsize, hchar⟩ := exists_split_of_getElem? hb hascii
  refine ⟨pre ++ [Char.ofNat b.toNat], post, by rw [List.append_assoc]; rfl, ?_⟩
  rw [size_concat, hsize, hchar]
  rfl

theorem drop_encode (front back : List Char) :
    (encode (front ++ back)).drop (size front) = encode back := by
  rw [encode_append, ← length_encode, List.drop_left]

/-! ## Cuts -/

/-- The parts of a text before an offset and from it on. There are none for an
    offset behind the end or inside a character. -/
def divide? : List Char → Nat → Option (List Char × List Char)
  | s, 0 => some ([], s)
  | [], _ + 1 => none
  | c :: rest, n + 1 =>
    if (encodeChar c).length ≤ n + 1 then
      (divide? rest (n + 1 - (encodeChar c).length)).map fun (front, back) => (c :: front, back)
    else none

theorem divide?_append (front back : List Char) :
    divide? (front ++ back) (size front) = some (front, back) := by
  induction front with
  | nil => cases back <;> rfl
  | cons c front ih =>
    have hpos := List.length_pos_iff.mpr (encodeChar_ne_nil c)
    obtain ⟨n, hn⟩ : ∃ n, size (c :: front) = n + 1 :=
      Nat.exists_eq_succ_of_ne_zero (by rw [size]; omega)
    have hrest : n + 1 - (encodeChar c).length = size front := by
      rw [← hn, size]
      omega
    rw [hn, List.cons_append, divide?, hrest, ih, if_pos (by rw [← hn, size]; omega)]
    rfl

/-- A text is cut between two characters, at its start or at its end. -/
theorem divide?_eq_some_iff {s front back : List Char} {offset : Nat} :
    divide? s offset = some (front, back) ↔ s = front ++ back ∧ size front = offset := by
  constructor
  · intro h
    fun_induction divide? s offset generalizing front with
    | case1 s =>
      cases h
      exact ⟨rfl, rfl⟩
    | case2 => cases h
    | case3 c rest n hle ih =>
      obtain ⟨⟨front', back'⟩, hrest, hpair⟩ := Option.map_eq_some_iff.mp h
      cases hpair
      obtain ⟨rfl, hsize⟩ := ih hrest
      refine ⟨rfl, ?_⟩
      rw [size, hsize]
      omega
    | case4 => cases h
  · rintro ⟨rfl, rfl⟩
    exact divide?_append front back

/-! ## Runs of bytes -/

/-- A class of bytes that holds all bytes of a character or none of them. -/
def IsWhole (p : UInt8 → Bool) : Prop :=
  ∀ c, (∀ b ∈ encodeChar c, p b = true) ∨ ∀ b ∈ encodeChar c, p b = false

/-- A class that does not tell the bytes above ASCII apart is one. -/
theorem isWhole_of_le {p : UInt8 → Bool} {v : Bool} (h : ∀ b : UInt8, 0x80 ≤ b.toNat → p b = v) :
    IsWhole p := by
  intro c
  rcases encodeChar_cases c with ⟨b, -, hc, -⟩ | hlong
  · rw [hc]
    cases hb : p b with
    | true => exact .inl (by simpa using hb)
    | false => exact .inr (by simpa using hb)
  · cases v with
    | true => exact .inl fun b hb => h b (hlong b hb)
    | false => exact .inr fun b hb => h b (hlong b hb)

/-- A run of such bytes is a run of characters. -/
theorem takeWhile_encode {p : UInt8 → Bool} (hp : IsWhole p) (s : List Char) :
    (encode s).takeWhile p = encode (s.takeWhile fun c => (encodeChar c).all p) := by
  induction s with
  | nil => rfl
  | cons c rest ih =>
    rw [encode_cons]
    rcases hp c with hall | hnone
    · rw [List.takeWhile_append_of_pos hall, ih, List.takeWhile_cons,
        if_pos (List.all_eq_true.mpr hall), encode_cons]
    · obtain ⟨b, tail, hc⟩ := List.exists_cons_of_ne_nil (encodeChar_ne_nil c)
      have hb : ¬ p b = true := by
        rw [hnone b (by rw [hc]; exact List.mem_cons_self)]
        exact Bool.false_ne_true
      have hchar : ¬ (b :: tail).all p = true := by
        rw [List.all_cons, Bool.and_eq_true]
        exact fun h => hb h.1
      rw [List.takeWhile_cons, hc, if_neg hchar, List.cons_append, List.takeWhile_cons_of_neg hb,
        encode_nil]

/-! ## Lossy decoding -/

theorem decodeLossyFrom_eq_drop (skip : Nat) (bytes : List UInt8) :
    decodeLossyFrom skip bytes = decodeLossy (bytes.drop skip) := by
  induction bytes generalizing skip with
  | nil => cases skip <;> rfl
  | cons b rest ih =>
    cases skip with
    | zero => rfl
    | succ skip => exact ih skip

theorem decodeLossy_encodeChar_append (c : Char) (rest : List UInt8) :
    decodeLossy (encodeChar c ++ rest) = c :: decodeLossy rest := by
  have hform := form_encodeChar c
  obtain ⟨lead, tail, hbytes⟩ := List.exists_cons_of_ne_nil hform.ne_nil
  rw [hbytes] at hform
  have hhead := head_of_form hform rest
  rw [Char.ofNat_toNat] at hhead
  rw [hbytes, List.cons_append, decodeLossy, decodeLossyFrom, hhead]
  simp only [Nat.add_sub_cancel, decodeLossyFrom_eq_drop, List.drop_left]

theorem decodeLossy_encode (s : List Char) : decodeLossy (encode s) = s := by
  induction s with
  | nil => rfl
  | cons c rest ih => rw [encode_cons, decodeLossy_encodeChar_append, ih]

end CompilerRemarks.Text.Utf8
