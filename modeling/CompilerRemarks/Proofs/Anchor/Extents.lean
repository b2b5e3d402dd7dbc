/-
  CompilerRemarks.Proofs.Anchor.Extents

  The anchors found in a text are in order, none of them ends before it
  starts, and they start and end in code (`ofSource_wellFormed`).

  Heads are found at offsets between characters (`stands_of_mem_loopHeads`,
  `stands_of_mem_functionHeads`), so an anchor starts with the first letter
  of its head. Its end is a bracket or a semicolon behind that head
  (`loopEnd?_eq_some`, `functionEnd?_eq_some`). What masking left there is
  neither a blank nor a line feed, and so it is code (`IsCodeAt.of_mask`).
-/
import CompilerRemarks.Proofs.Anchor.Layout
import CompilerRemarks.Proofs.Anchor.Mask
import CompilerRemarks.Proofs.Anchor.Order
import CompilerRemarks.Remark.Query

namespace CompilerRemarks.Anchor

open Text.Utf8 (encode encodeChar size)

/-! ## Letters -/

/-- Whether a byte may start a name: an ASCII letter, an underscore or a tilde. -/
def isNameByte (b : UInt8) : Bool :=
  (0x41 ≤ b && b ≤ 0x5A) || (0x61 ≤ b && b ≤ 0x7A) || b == 0x5F || b == 0x7E

/-- A character that may start a name is one byte that may. -/
theorem exists_byte_of_startsName {c : Char} (h : startsName c = true) :
    ∃ b, encodeChar c = [b] ∧ isNameByte b = true := by
  have hrange : (0x61 ≤ c.toNat ∧ c.toNat ≤ 0x7A) ∨ (0x41 ≤ c.toNat ∧ c.toNat ≤ 0x5A) ∨
      c.toNat = 0x5F ∨ c.toNat = 0x7E := by
    simp only [startsName, Text.isAsciiLetter, Bool.or_eq_true, Bool.and_eq_true,
      decide_eq_true_eq, beq_iff_eq, Char.le_def, UInt32.le_iff_toNat_le] at h
    rcases h with ((⟨hlo, hhi⟩ | ⟨hlo, hhi⟩) | rfl) | rfl
    · exact .inl ⟨hlo, hhi⟩
    · exact .inr (.inl ⟨hlo, hhi⟩)
    · exact .inr (.inr (.inl rfl))
    · exact .inr (.inr (.inr rfl))
  have hbyte : c.toNat.toUInt8.toNat = c.toNat := Text.Utf8.toNat_toUInt8 (by omega)
  refine ⟨c.toNat.toUInt8, Text.Utf8.encodeChar_of_lt (by omega), ?_⟩
  simp only [isNameByte, Bool.or_eq_true, Bool.and_eq_true, decide_eq_true_eq, beq_iff_eq,
    UInt8.le_iff_toNat_le, ← UInt8.toNat_inj, hbyte, UInt8.reduceToNat]
  omega

theorem startsName_of_startsType {c : Char} (h : startsType c = true) : startsName c = true := by
  rw [startsName, ← startsType, h, Bool.true_or]

theorem getElem?_encode_append {pre rest : List Char} {c : Char} {b : UInt8}
    (hc : encodeChar c = [b]) : (encode (pre ++ c :: rest))[size pre]? = some b := by
  rw [Text.Utf8.encode_append, Text.Utf8.encode_cons, hc, ← Text.Utf8.length_encode,
    List.getElem?_append_right (Nat.le_refl _), Nat.sub_self]
  rfl

theorem size_pos {s : List Char} (h : s ≠ []) : 0 < size s := by
  obtain ⟨c, rest, rfl⟩ := List.exists_cons_of_ne_nil h
  have := List.length_pos_iff.mpr (Text.Utf8.encodeChar_ne_nil c)
  rw [size]
  omega

theorem drop_length_takeWhile (p : Char → Bool) (s : List Char) :
    s.drop (s.takeWhile p).length = s.dropWhile p := by
  conv => lhs; arg 2; rw [← List.takeWhile_append_dropWhile (p := p) (l := s)]
  exact List.drop_left

/-- What stands behind the characters that a search skips. -/
theorem eq_takeWhile_append {p : Char → Bool} {s : List Char} {c : Char}
    (h : (s.drop (s.takeWhile p).length).head? = some c) :
    ∃ rest, s = s.takeWhile p ++ c :: rest := by
  rw [drop_length_takeWhile] at h
  obtain ⟨rest, hrest⟩ := List.head?_eq_some_iff.mp h
  exact ⟨rest, by rw [← hrest, List.takeWhile_append_dropWhile]⟩

/-! ## Heads -/

/-- A text starts with a head, and the head with a letter. -/
def Opens (head s : List Char) : Prop :=
  ∃ c tail rest, startsName c = true ∧ head = c :: tail ∧ s = head ++ rest

/-- A letter of a text, at an offset between two of its characters, and the
    offset of a bracket behind it. -/
def IsHead (text : List Char) (start bracket : Nat) : Prop :=
  ∃ before c rest, text = before ++ c :: rest ∧ startsName c = true ∧
    start = size before ∧ start < bracket

/-- A head that stands behind some characters has its bracket behind itself. -/
theorem Opens.isHead {head s : List Char} (h : Opens head s) (before : List Char) :
    IsHead (before ++ s) (size before) (size before + size head) := by
  obtain ⟨c, tail, rest, hc, rfl, rfl⟩ := h
  have hpos : 0 < size (c :: tail) := size_pos (List.cons_ne_nil c tail)
  exact ⟨before, c, tail ++ rest, rfl, hc, rfl, Nat.lt_add_of_pos_right hpos⟩

/-- A head at the start of a text, with its bracket behind it. -/
structure Leads (head s : List Char) : Prop where
  opens : Opens head s
  bracket : ∃ c rest, (encodeChar c).length = 1 ∧ s = head ++ c :: rest

theorem Leads.of_letter {c bracket : Char} {tail s rest : List Char} (hc : startsName c = true)
    (hbracket : (encodeChar bracket).length = 1) (hs : s = (c :: tail) ++ bracket :: rest) :
    Leads (c :: tail) s :=
  ⟨⟨c, tail, bracket :: rest, hc, rfl, hs⟩, bracket, rest, hbracket, hs⟩

/-- Where a head stands in a text: behind some characters, and up to its
    bracket. -/
structure Stands (text before head : List Char) (start bracket : Nat) : Prop where
  leads : ∃ s, text = before ++ s ∧ Leads head s
  start_eq : start = size before
  bracket_eq : bracket = size before + size head

theorem Stands.isHead {text before head : List Char} {start bracket : Nat}
    (h : Stands text before head start bracket) : IsHead text start bracket := by
  obtain ⟨s, rfl, hleads⟩ := h.leads
  rw [h.start_eq, h.bracket_eq]
  exact hleads.opens.isHead before

/-! ## Loop heads -/

theorem keyword?_eq_some {word text s : List Char} {bracket : Char}
    (h : keyword? word bracket s = some text) :
    ∃ blanks rest, text = word ++ blanks ∧ s = text ++ bracket :: rest := by
  rw [keyword?] at h
  split at h
  · rename_i hword
    obtain ⟨rest, rfl⟩ := List.isPrefixOf_iff_prefix.mp hword
    rw [List.drop_left] at h
    dsimp only at h
    split at h
    · rename_i hbracket
      cases h
      obtain ⟨more, hmore⟩ := eq_takeWhile_append (beq_iff_eq.mp hbracket)
      refine ⟨_, more, rfl, ?_⟩
      rw [List.append_assoc, ← hmore]
    · cases h
  · cases h

/-- The head of a loop goes up to its bracket, and tells a `do` loop from the
    others. -/
theorem loopAt?_eq_some {s text : List Char} {isDo : Bool} (h : loopAt? s = some (text, isDo)) :
    Leads text s ∧ ∀ rest, "do".toList.isPrefixOf (text ++ rest) = isDo := by
  -- what one of the keywords gives
  have hkeyword : ∀ {c : Char} {word : List Char} {bracket : Char}, startsName c = true →
      (encodeChar bracket).length = 1 → keyword? (c :: word) bracket s = some text →
      Leads text s ∧ ∃ blanks, text = c :: word ++ blanks := by
    intro c word bracket hc hbracket hword
    obtain ⟨blanks, rest, rfl, hs⟩ := keyword?_eq_some hword
    exact ⟨.of_letter hc hbracket hs, blanks, rfl⟩
  rw [loopAt?] at h
  split at h
  · rename_i hfor
    cases h
    obtain ⟨hleads, blanks, rfl⟩ := hkeyword (by decide) (by decide) hfor
    exact ⟨hleads, fun _ => rfl⟩
  · split at h
    · rename_i hwhile
      cases h
      obtain ⟨hleads, blanks, rfl⟩ := hkeyword (by decide) (by decide) hwhile
      exact ⟨hleads, fun _ => rfl⟩
    · obtain ⟨_, hdo, hpair⟩ := Option.map_eq_some_iff.mp h
      cases hpair
      obtain ⟨hleads, blanks, rfl⟩ := hkeyword (by decide) (by decide) hdo
      exact ⟨hleads, fun _ => rfl⟩

/-- The heads of loops stand in the text; each knows what comes before it. -/
theorem stands_of_mem_loopHeads {skip : Nat} {pre s : List Char} {head : LoopHead}
    (h : head ∈ loopHeads skip pre.reverse (size pre) s) :
    ∃ before text, Stands (pre ++ s) before text head.start head.bracket ∧
      (∀ rest, "do".toList.isPrefixOf (text ++ rest) = head.isDo) ∧
      head.afterBrace = endsInBrace before.reverse := by
  induction s generalizing skip pre with
  | nil => exact absurd h (by simp [loopHeads])
  | cons c rest ih =>
    -- the heads behind the first character
    have hlater : ∀ skip, head ∈ loopHeads skip (c :: pre.reverse)
        (size pre + (encodeChar c).length) rest →
        ∃ before text, Stands (pre ++ c :: rest) before text head.start head.bracket ∧
          (∀ rest, "do".toList.isPrefixOf (text ++ rest) = head.isDo) ∧
          head.afterBrace = endsInBrace before.reverse := by
      intro skip hmem
      have hreverse : c :: pre.reverse = (pre ++ [c]).reverse := by simp
      rw [hreverse, ← Text.Utf8.size_concat] at hmem
      have hfound := ih hmem
      rwa [List.append_assoc] at hfound
    cases skip with
    | succ skip => exact hlater skip h
    | zero =>
      rw [loopHeads] at h
      split at h
      · rename_i text isDo hat
        rcases List.mem_cons.mp h with rfl | hmem
        · split at hat
          · cases hat
          · obtain ⟨hleads, hdo⟩ := loopAt?_eq_some hat
            exact ⟨pre, text, ⟨⟨_, rfl, hleads⟩, rfl, rfl⟩, hdo, rfl⟩
        · exact hlater _ hmem
      · exact hlater 0 h

/-! ## Function heads -/

theorem call?_eq_some {s name text : List Char} (h : call? s = some (name, text)) :
    Leads text s := by
  cases s with
  | nil => cases h
  | cons c rest =>
    simp only [call?, List.length_cons, List.drop_succ_cons] at h
    split at h
    · rename_i hc
      split at h
      · rename_i hbracket
        cases h
        -- the name, the gap and the bracket, one after the other
        have hname : rest = rest.takeWhile isNameChar ++
            rest.drop (rest.takeWhile isNameChar).length := by
          rw [drop_length_takeWhile, List.takeWhile_append_dropWhile]
        obtain ⟨more, hmore⟩ := eq_takeWhile_append (beq_iff_eq.mp hbracket)
        have hs : c :: rest = (c :: (rest.takeWhile isNameChar ++
            (rest.drop (rest.takeWhile isNameChar).length).takeWhile isGap)) ++ '(' :: more := by
          rw [List.cons_append, List.append_assoc, ← hmore, ← hname]
        exact .of_letter hc rfl hs
      · cases h
    · cases h

/-- A type and a call go from the start of the text to a bracket. -/
theorem typedCall?_eq_some {s name text : List Char} {k : Nat}
    (h : typedCall? s k = some (name, text)) :
    text ≠ [] ∧ ∃ bracket rest, (encodeChar bracket).length = 1 ∧ s = text ++ bracket :: rest := by
  induction k with
  | zero => cases h
  | succ k ih =>
    rw [typedCall?] at h
    split at h
    · rename_i callName head hcall
      cases h
      split at hcall
      · have hleads := call?_eq_some hcall
        obtain ⟨c, tail, -, -, hhead, -⟩ := hleads.opens
        obtain ⟨bracket, rest, hbracket, hs⟩ := hleads.bracket
        refine ⟨by simp [hhead], bracket, rest, hbracket, ?_⟩
        rw [List.append_assoc, ← hs, List.take_append_drop]
      · cases hcall
    · exact ih h

/-- The head of a function stands behind the blanks at the start of its line. -/
theorem functionAt?_eq_some {line name gap text : List Char}
    (h : functionAt? line = some (name, gap, text)) :
    ∃ s, line = gap ++ s ∧ (∀ x ∈ gap, isGap x = true) ∧ Leads text s := by
  simp only [functionAt?, drop_length_takeWhile] at h
  obtain ⟨found, hfound, hparts⟩ := Option.map_eq_some_iff.mp h
  obtain ⟨-, rfl, rfl⟩ : found.1 = name ∧ line.takeWhile isGap = gap ∧ found.2 = text := by
    simpa using hparts
  refine ⟨line.dropWhile isGap, List.takeWhile_append_dropWhile.symm,
    fun x hx => List.all_eq_true.mp List.all_takeWhile x hx, ?_⟩
  generalize line.dropWhile isGap = s at hfound
  -- with a type before the name or without one, the head starts with a letter
  rcases Option.or_eq_some_iff.mp (by simpa using hfound) with htyped | ⟨-, hcall⟩
  · cases s with
    | nil => cases htyped
    | cons c rest =>
      dsimp only at htyped
      split at htyped
      · rename_i hc
        obtain ⟨hne, bracket, more, hbracket, hmore⟩ := typedCall?_eq_some htyped
        obtain ⟨c', tail, htext⟩ := List.exists_cons_of_ne_nil hne
        obtain ⟨rfl, -⟩ : c = c' ∧ rest = tail ++ bracket :: more := by
          simpa [htext] using hmore
        rw [htext] at hmore ⊢
        exact .of_letter (startsName_of_startsType hc) hbracket hmore
      · cases htyped
  · exact call?_eq_some hcall

/-- Blanks inside a line take one byte each. -/
theorem size_of_isGap {gap : List Char} (h : ∀ x ∈ gap, isGap x = true) :
    size gap = gap.length := by
  induction gap with
  | nil => rfl
  | cons c rest ih =>
    have hc : (encodeChar c).length = 1 := by
      have hgap : c = ' ' ∨ c = '\t' := by simpa [isGap] using h c List.mem_cons_self
      rcases hgap with rfl | rfl <;> rfl
    rw [size, hc, ih fun x hx => h x (List.mem_cons_of_mem c hx), List.length_cons]
    omega

/-- The heads of functions stand in the text. -/
theorem stands_of_mem_functionHeads {skip : Nat} {lineStart : Bool} {pre s : List Char}
    {head : FunctionHead} (h : head ∈ functionHeads skip lineStart (size pre) s) :
    ∃ before text, Stands (pre ++ s) before text head.start head.bracket := by
  induction s generalizing skip lineStart pre with
  | nil => exact absurd h (by simp [functionHeads])
  | cons c rest ih =>
    -- the heads behind the first character
    have hlater : ∀ skip lineStart, head ∈ functionHeads skip lineStart
        (size pre + (encodeChar c).length) rest →
        ∃ before text, Stands (pre ++ c :: rest) before text head.start head.bracket := by
      intro skip lineStart hmem
      rw [← Text.Utf8.size_concat] at hmem
      have hfound := ih hmem
      rwa [List.append_assoc] at hfound
    cases skip with
    | succ skip => exact hlater skip _ h
    | zero =>
      rw [functionHeads] at h
      split at h
      · rename_i name gap text hat
        rcases List.mem_cons.mp h with rfl | hmem
        · split at hat
          · -- the blanks before the head stand before it in the text as well
            obtain ⟨line, hline, hgap, hleads⟩ := functionAt?_eq_some hat
            have hstart : size pre + gap.length = size (pre ++ gap) := by
              rw [Text.Utf8.size_append, size_of_isGap hgap]
            exact ⟨pre ++ gap, text, ⟨line, by rw [hline, List.append_assoc], hleads⟩, hstart,
              by rw [← hstart]⟩
          · cases hat
        · exact hlater _ _ hmem
      · exact hlater 0 _ h

/-! ## Ends -/

/-- A loop ends behind its bracket, with a closing brace or a semicolon. -/
theorem loopEnd?_eq_some {bytes : List UInt8} {head : LoopHead} {last : Nat}
    (h : loopEnd? bytes head = some last) :
    head.bracket < last ∧ (bytes[last]? = some 0x7D ∨ bytes[last]? = some 0x3B) := by
  rw [loopEnd?] at h
  split at h
  · -- the bracket of a `do` is the brace of its body
    obtain ⟨hlt, -, hlast⟩ := matching?_eq_some (by decide) h
    exact ⟨hlt, .inl hlast⟩
  · -- the body stands behind the bracket that closes the condition
    split at h
    · cases h
    · rename_i close hclose
      obtain ⟨hbracket, -, -⟩ := matching?_eq_some (by decide) hclose
      split at h
      · cases h
      · rename_i body b hbody
        obtain ⟨hbehind, -, -⟩ := findByte?_eq_some hbody
        split at h
        · cases h
        · split at h
          · obtain ⟨hlt, -, hlast⟩ := matching?_eq_some (by decide) h
            exact ⟨by omega, .inl hlast⟩
          · obtain ⟨⟨last', x⟩, hfound, rfl⟩ := Option.map_eq_some_iff.mp h
            obtain ⟨hle, hlast, hx⟩ := findByte?_eq_some hfound
            exact ⟨by dsimp only; omega, .inr (by rw [hlast, beq_iff_eq.mp hx])⟩

theorem skipQualifiers_suffix {fuel : Nat} {s t : List Char} (h : skipQualifiers fuel s = some t) :
    t <:+ s := by
  induction fuel generalizing s with
  | zero => cases h
  | succ fuel ih =>
    rw [skipQualifiers] at h
    split at h
    · cases h
      exact List.suffix_refl _
    · split at h
      · exact (ih h).trans ((List.dropWhile_suffix _).trans (List.drop_suffix _ _))
      · cases h

/-- The body of a function starts behind the bracket that closes its
    parameters. Lossy decoding does no harm there: the bracket stands between
    characters. -/
theorem lt_bodyStart? {code : List Char} {close body : Nat}
    (hclose : (encode code)[close]? = some 0x29)
    (h : bodyStart? (encode code) (close + 1) = some body) : close < body := by
  obtain ⟨front, back, rfl, hfront⟩ := Text.Utf8.exists_split_behind hclose (by decide)
  rw [bodyStart?, ← hfront, Text.Utf8.drop_encode, Text.Utf8.decodeLossy_encode] at h
  obtain ⟨rest, hrest, rfl⟩ := Option.map_eq_some_iff.mp h
  obtain ⟨skipped, hskipped⟩ :=
    (skipQualifiers_suffix hrest).trans (List.dropWhile_suffix Text.isBlank)
  have hsize : size skipped + size rest = size back := by
    rw [← Text.Utf8.size_append, hskipped]
  rw [Text.Utf8.length_encode, Text.Utf8.size_append]
  omega

/-- A function ends behind the bracket of its parameters, with a closing brace. -/
theorem functionEnd?_eq_some {code : List Char} {head : FunctionHead} {last : Nat}
    (h : functionEnd? (encode code) head = some last) :
    head.bracket < last ∧ (encode code)[last]? = some 0x7D := by
  rw [functionEnd?] at h
  split at h
  · cases h
  · rename_i close hclose
    obtain ⟨hbracket, -, hparen⟩ := matching?_eq_some (by decide) hclose
    obtain ⟨body, hbody, hmatching⟩ := Option.bind_eq_some_iff.mp h
    have hbehind := lt_bodyStart? hparen hbody
    obtain ⟨hlt, -, hlast⟩ := matching?_eq_some (by decide) hmatching
    exact ⟨by omega, hlast⟩

/-! ## Code -/

/-- A byte of a source that is code: no comment and no literal holds it, and
    masking keeps it. -/
structure IsCodeAt (source : List UInt8) (i : Nat) (b : UInt8) : Prop where
  source_eq : source[i]? = some b
  masked_eq : (mask source)[i]? = some b
  region_eq : (regions source)[i]? = some .code

/-- What masking leaves is code, but for blanks and line feeds. -/
theorem IsCodeAt.of_mask {source : List UInt8} {i : Nat} {b : UInt8}
    (h : (mask source)[i]? = some b) (hblank : b ≠ 0x20) (hfeed : b ≠ 0x0A) :
    IsCodeAt source i b := by
  obtain ⟨region, x, hregion, hx, hshown⟩ := getElem?_mask_eq_some_iff.mp h
  have hx' : x ≠ 0x0A := by
    rintro rfl
    exact hfeed (hshown.symm.trans (region.shown_eq_feed_iff.mpr rfl))
  by_cases hcode : region = .code
  · rw [hcode, Region.shown_code] at hshown
    exact ⟨hshown ▸ hx, h, hcode ▸ hregion⟩
  · rw [Region.shown_of_ne hcode hx'] at hshown
    exact absurd hshown.symm hblank

theorem laterStarts_zipWith_shown {rs : List Region} {bytes : List UInt8}
    (h : rs.length = bytes.length) (start : Nat) :
    laterStarts start (List.zipWith Region.shown rs bytes) = laterStarts start bytes := by
  induction bytes generalizing rs start with
  | nil => rw [List.length_eq_zero_iff.mp h]; rfl
  | cons b rest ih =>
    obtain ⟨r, rs, rfl⟩ := List.exists_cons_of_length_eq_add_one h
    have hfeed : (r.shown b == 0x0A) = (b == 0x0A) :=
      Bool.eq_iff_iff.mpr (by rw [beq_iff_eq, beq_iff_eq, r.shown_eq_feed_iff])
    rw [List.zipWith_cons_cons, laterStarts, laterStarts, hfeed, ih (by simpa using h)]

/-- Lines start where they did. -/
theorem lineStarts_mask (source : List UInt8) : lineStarts (mask source) = lineStarts source := by
  rw [lineStarts, mask_eq_zipWith, laterStarts_zipWith_shown (length_regions source), lineStarts]

/-! ## Anchors -/

/-- An anchor from a letter to a brace or a semicolon behind it, both in the
    code of a source. -/
structure Spans (source : List UInt8) (a : Anchor) (first last : Nat) : Prop where
  lt : first < last
  starts : ∃ b, IsCodeAt source first b ∧ isNameByte b = true
  ends : ∃ b, IsCodeAt source last b ∧ (b = 0x7D ∨ b = 0x3B)
  range_eq : a.range = rangeOf (lineStarts source) first last

/-- A head and an end behind it, both found in the masked text, make an anchor
    that spans a part of the code. -/
theorem Spans.of_found {s : List Char} {a : Anchor} {first bracket last : Nat}
    (hhead : IsHead (maskText (encode s)) first bracket) (hlt : bracket < last)
    (hlast : (mask (encode s))[last]? = some 0x7D ∨ (mask (encode s))[last]? = some 0x3B)
    (hrange : a.range = rangeOf (lineStarts (mask (encode s))) first last) :
    Spans (encode s) a first last := by
  obtain ⟨before, c, rest, hcode, hc, hfirst, hbracket⟩ := hhead
  obtain ⟨x, hx, hname⟩ := exists_byte_of_startsName hc
  have hstart : (mask (encode s))[first]? = some x := by
    rw [← encode_maskText, hcode, hfirst]
    exact getElem?_encode_append hx
  have hblank : x ≠ 0x20 := by
    rintro rfl
    exact absurd hname (by decide)
  have hfeed : x ≠ 0x0A := by
    rintro rfl
    exact absurd hname (by decide)
  rw [lineStarts_mask] at hrange
  refine ⟨Nat.lt_trans hbracket hlt, ⟨x, .of_mask hstart hblank hfeed, hname⟩, ?_, hrange⟩
  rcases hlast with hbrace | hsemicolon
  · exact ⟨0x7D, .of_mask hbrace (by decide) (by decide), .inl rfl⟩
  · exact ⟨0x3B, .of_mask hsemicolon (by decide) (by decide), .inr rfl⟩

/-- Every anchor of a text spans a part of its code. -/
theorem exists_spans {s : List Char} {a : Anchor} (h : a ∈ ofSource (encode s)) :
    ∃ first last, Spans (encode s) a first last := by
  have hbytes : encode (maskText (encode s)) = mask (encode s) := encode_maskText s
  rw [ofSource, (sorted_perm _).mem_iff, List.mem_append, List.mem_filterMap,
    List.mem_filterMap] at h
  -- both searches start at the front of the masked text
  rcases h with ⟨head, hhead, hloop⟩ | ⟨head, hhead, hfunction⟩
  · obtain ⟨last, hlast, rfl⟩ := Option.map_eq_some_iff.mp hloop
    have hmem : head ∈ loopHeads 0 [].reverse (size []) (maskText (encode s)) := hhead
    obtain ⟨hlt, hbyte⟩ := loopEnd?_eq_some hlast
    rw [hbytes] at hbyte ⊢
    obtain ⟨before, text, hstands, -, -⟩ := stands_of_mem_loopHeads hmem
    exact ⟨head.start, last, .of_found hstands.isHead hlt hbyte rfl⟩
  · split at hfunction
    · cases hfunction
    · obtain ⟨last, hlast, rfl⟩ := Option.map_eq_some_iff.mp hfunction
      have hmem : head ∈ functionHeads 0 true (size []) (maskText (encode s)) := hhead
      obtain ⟨hlt, hbyte⟩ := functionEnd?_eq_some hlast
      rw [hbytes] at hbyte ⊢
      obtain ⟨before, text, hstands⟩ := stands_of_mem_functionHeads hmem
      exact ⟨head.start, last, .of_found hstands.isHead hlt (.inl hbyte) rfl⟩

/-- In a text of less than 2^32 bytes, an anchor tells where it starts and ends. -/
theorem Spans.positions {source : List UInt8} {a : Anchor} {first last : Nat}
    (h : Spans source a first last) (hsize : source.length < UInt32.size) :
    IsPositionOf source first a.range.first ∧ IsPositionOf source last a.range.last := by
  obtain ⟨b, hb, -⟩ := h.ends
  have hlast : last < source.length := (List.getElem?_eq_some_iff.mp hb.source_eq).1
  rw [h.range_eq]
  exact ⟨isPositionOf_positionOf (Nat.lt_trans h.lt hlast) hsize,
    isPositionOf_positionOf hlast hsize⟩

/-- The anchors of a text are in order of start and end; none is inverted, so
    it can be queried; each starts at a letter, an underscore or a tilde and
    ends at a closing brace or a semicolon, in code. -/
theorem ofSource_wellFormed (s : List Char) (hsize : (encode s).length < UInt32.size) :
    (ofSource (encode s)).Pairwise (fun a b => a.le b = true) ∧
    ∀ a ∈ ofSource (encode s),
      a.range.first.le a.range.last = true ∧
      (∀ remarks, ∃ found, Remark.query remarks a.range = .ok found) ∧
      (∃ i b, IsCodeAt (encode s) i b ∧ isNameByte b = true ∧
        IsPositionOf (encode s) i a.range.first) ∧
      ∃ i b, IsCodeAt (encode s) i b ∧ (b = 0x7D ∨ b = 0x3B) ∧
        IsPositionOf (encode s) i a.range.last := by
  refine ⟨pairwise_sorted _, fun a ha => ?_⟩
  obtain ⟨first, last, hspans⟩ := exists_spans ha
  obtain ⟨hfirst, hlast⟩ := hspans.positions hsize
  have hle : a.range.first.le a.range.last = true := hfirst.le hlast (Nat.le_of_lt hspans.lt)
  obtain ⟨b, hb, hname⟩ := hspans.starts
  obtain ⟨b', hb', hend⟩ := hspans.ends
  refine ⟨hle, fun remarks => ?_, ⟨first, b, hb, hname, hfirst⟩, ⟨last, b', hb', hend, hlast⟩⟩
  have hvalid : a.range.isInverted = false := by rw [Range.isInverted, hle]; rfl
  exact ⟨_, by rw [Remark.query, hvalid]; rfl⟩

/-- A destructor that has a loop and, in a comment, another closing brace. -/
theorem ofSource_wellFormed_destructor :
    let s := "~f()\x7bfor(;;);/*\x7d*/\x7d".toList
    let a : Anchor := ⟨.function, some "~f", ⟨⟨1, 1⟩, ⟨1, 19⟩⟩⟩
    (encode s).length < UInt32.size ∧ a ∈ ofSource (encode s) ∧
    a.range.first.le a.range.last = true ∧
    (∀ remarks, ∃ found, Remark.query remarks a.range = .ok found) ∧
    (∃ i b, IsCodeAt (encode s) i b ∧ isNameByte b = true ∧
      IsPositionOf (encode s) i a.range.first) ∧
    ∃ i b, IsCodeAt (encode s) i b ∧ (b = 0x7D ∨ b = 0x3B) ∧
      IsPositionOf (encode s) i a.range.last := by
  intro s a
  have hsize : (encode s).length < UInt32.size := by decide
  have ha : a ∈ ofSource (encode s) := by
    rw [ofSource, (sorted_perm _).mem_iff]
    decide +kernel
  exact ⟨hsize, ha, (ofSource_wellFormed s hsize).2 a ha⟩

end CompilerRemarks.Anchor
