/-
  CompilerRemarks.Proofs.Yaml.FlowLine

  Scanning a line with a key and a flow mapping. A run that ends without an
  error takes the tokens that are written on the line one after the other
  (`Within`); once no possible key stands before them, nothing that follows on
  the line or behind it changes them (`Within.firstTokens`).
-/
import CompilerRemarks.Proofs.Yaml.OneLine
import CompilerRemarks.Proofs.Yaml.LineStart

namespace CompilerRemarks.Yaml

open Cursor

/-! ## Words -/

/-- A word: letters, digits, underscores and dashes, the first of them no dash. -/
def isWord : List Char → Bool
  | [] => false
  | c :: rest => c != '-' && (c :: rest).all isNameChar

variable {c : Char} {word gap tail z : List Char}

theorem ne_of_isNameChar (h : isNameChar c = true) {d : Char} (hd : isNameChar d = false) :
    c ≠ d := by
  rintro rfl
  rw [h] at hd
  cases hd

/-- Characters of names are letters of plain scalars. -/
theorem isNameChar_plain (h : isNameChar c = true) : isGap c = false ∧ isBreak c = false ∧
    isFlowMark c = false ∧ c ≠ ':' := by
  have hne := fun {d : Char} => ne_of_isNameChar h (d := d)
  refine ⟨?_, ?_, ?_, hne (by decide)⟩
  · simp [isGap, hne (d := ' ') (by decide), hne (d := '\t') (by decide)]
  · simp [isBreak, hne (d := '\r') (by decide), hne (d := '\n') (by decide),
      hne (d := '\x85') (by decide), hne (d := '\u2028') (by decide),
      hne (d := '\u2029') (by decide)]
  · simp [isFlowMark, hne (d := ',') (by decide), hne (d := '[') (by decide),
      hne (d := ']') (by decide), hne (d := '\x7b') (by decide), hne (d := '\x7d') (by decide)]

theorem isPlain_of_names (h : ∀ c ∈ word, isNameChar c = true) : isPlain word = true := by
  induction word with
  | nil => rfl
  | cons c word ih =>
    obtain ⟨hc, hword⟩ := List.forall_mem_cons.mp h
    obtain ⟨hgap, hbreak, hmark, hcolon⟩ := isNameChar_plain hc
    simp [isPlain, hgap, hbreak, hmark, hcolon, ih hword]

/-- Characters of names are ASCII. -/
theorem size_of_names (h : ∀ c ∈ word, isNameChar c = true) :
    Text.Utf8.size word = word.length := by
  induction word with
  | nil => rfl
  | cons c word ih =>
    obtain ⟨hc, hword⟩ := List.forall_mem_cons.mp h
    have hascii : c.toNat < 0x80 := by
      by_contra hlarge
      have hgt : ∀ d : Char, d.toNat < 0x80 → ¬ c ≤ d := fun d hd hle =>
        hlarge (Nat.lt_of_le_of_lt (UInt32.le_iff_toNat_le.mp hle) hd)
      have hne : ∀ d : Char, d.toNat < 0x80 → c ≠ d := by
        rintro d hd rfl
        exact hlarge hd
      simp [isNameChar, hgt '9' (by decide), hgt 'Z' (by decide), hgt 'z' (by decide),
        hne '_' (by decide), hne '-' (by decide)] at hc
    rw [Text.Utf8.size, ih hword, Text.Utf8.encodeChar_of_lt hascii, List.length_singleton,
      List.length_cons, Nat.add_comm]

theorem exists_of_isWord (h : isWord word = true) : ∃ c rest, word = c :: rest ∧ c ≠ '-' ∧
    ∀ d ∈ word, isNameChar d = true := by
  cases word with
  | nil => cases h
  | cons c rest =>
    simp only [isWord, Bool.and_eq_true, bne_iff_ne, List.all_eq_true] at h
    exact ⟨c, rest, rfl, h.1, h.2⟩

/-- A word may start a plain scalar. -/
theorem startsPlain_of_isWord (h : isWord word = true) (behind : List Char) :
    Scanner.startsPlain true (word ++ behind) = true := by
  obtain ⟨c, rest, rfl, hdash, hname⟩ := exists_of_isWord h
  have hc := hname c List.mem_cons_self
  obtain ⟨hgap, hbreak, -, -⟩ := isNameChar_plain hc
  have hmark : "-?:,[]\x7b\x7d#&*!|>'\"%@\x60".toList.contains c = false := by
    rw [Bool.eq_false_iff]
    intro hmem
    have hall : ∀ d ∈ "-?:,[]\x7b\x7d#&*!|>'\"%@\x60".toList, d = '-' ∨ isNameChar d = false := by
      simp [isNameChar]
    rcases hall c (by simpa using hmem) with heq | hnot
    · exact hdash heq
    · rw [hc] at hnot
      cases hnot
  rw [List.cons_append]
  simp only [Scanner.startsPlain, hgap, hbreak, hmark]
  rfl

/-! ## Scalars and entries -/

/-- A scalar of a flow mapping and whether it is plain, with the text from its
    first character on and the text from the place where it ends: it is in
    quotes, or goes on up to a comma or the closing brace. -/
inductive ScalarAt : List Char → Bool → List Char → List Char → Prop where
  | quoted {single : Bool} {value z : List Char} (hvalue : ∀ c ∈ value, Quotable single c)
      (hafter : single = true → z.head? ≠ some '\'') :
      ScalarAt value false
        (quoteMark single :: (value.flatMap (inQuotes single) ++ quoteMark single :: z)) z
  | plain {value gap z : List Char} {c : Char}
      (hstarts : Scanner.startsPlain true (value ++ (gap ++ c :: z)) = true) (hne : value ≠ [])
      (hplain : isPlain value = true) (hlast : ∀ d ∈ value.getLast?, isGap d = false)
      (hgap : ∀ d ∈ gap, isGap d = true) (hc : c = ',' ∨ c = '\x7d') :
      ScalarAt value true (value ++ (gap ++ c :: z)) (c :: z)

/-- Entries of a flow mapping, each followed by a comma: words with scalars and
    whether these are plain, the text from the first entry on and the text
    behind them. -/
inductive EntriesAt : List (List Char × List Char × Bool) → List Char → List Char → Prop where
  | nil (z : List Char) : EntriesAt [] z z
  | cons {gap key gap' value x gap'' y z : List Char} {plain : Bool}
      {entries : List (List Char × List Char × Bool)} (hgap : ∀ c ∈ gap, isGap c = true)
      (hkey : isWord key = true) (hlong : key.length ≤ 1024) (hgap' : ∀ c ∈ gap', isGap c = true)
      (hne : gap' ≠ []) (hvalue : ScalarAt value plain x (gap'' ++ ',' :: y))
      (hgap'' : ∀ c ∈ gap'', isGap c = true) (h : EntriesAt entries y z) :
      EntriesAt ((key, value, plain) :: entries) (gap ++ (key ++ ':' :: (gap' ++ x))) z

/-- The first two characters decide where a plain scalar may start. -/
theorem startsPlain_append {text : List Char} (h : 2 ≤ text.length) (more : List Char) :
    Scanner.startsPlain true (text ++ more) = Scanner.startsPlain true text := by
  match text, h with
  | _ :: _ :: _, _ => rfl

/-- More text at the end leaves a scalar as it is, but for a quote behind one. -/
theorem ScalarAt.append {value z' more : List Char} {plain : Bool} (h : ScalarAt value plain z z')
    (hmore : more.head? ≠ some '\'') : ScalarAt value plain (z ++ more) (z' ++ more) := by
  cases h with
  | quoted hvalue hafter =>
    rw [List.cons_append, List.append_assoc, List.cons_append]
    refine .quoted hvalue fun hsingle => ?_
    rw [List.head?_append]
    cases hhead : z'.head? with
    | none => exact hmore
    | some c =>
      rw [← hhead]
      exact fun heq => hafter hsingle (by simpa [hhead] using heq)
  | @plain value gap z c hstarts hne hplain hlast hgap hc =>
    have hlong : 2 ≤ (value ++ (gap ++ c :: z)).length := by
      have hpos := List.length_pos_iff.mpr hne
      simp only [List.length_append, List.length_cons]
      omega
    rw [← startsPlain_append hlong more, List.append_assoc, List.append_assoc,
      List.cons_append] at hstarts
    rw [List.append_assoc, List.append_assoc, List.cons_append]
    exact .plain hstarts hne hplain hlast hgap hc

theorem EntriesAt.append {entries : List (List Char × List Char × Bool)} {z' more : List Char}
    (h : EntriesAt entries z z') (hmore : more.head? ≠ some '\'') :
    EntriesAt entries (z ++ more) (z' ++ more) := by
  induction h with
  | nil z => exact .nil _
  | cons hgap hkey hlong hgap' hne hvalue hgap'' _ ih =>
    have hbehind := hvalue.append hmore
    rw [List.append_assoc, List.cons_append] at hbehind
    simpa using EntriesAt.cons hgap hkey hlong hgap' hne hbehind hgap'' ih

/-- The tokens of entries. -/
def entryTokens (entries : List (List Char × List Char × Bool)) : List Token :=
  entries.flatMap fun (key, value, plain) =>
    [.key, .scalar key true, .value, .scalar value plain, .separator]

namespace Scanner

variable {s t : Scanner} {tokens read : List Token} {allowed : Bool}

/-! ## Between two tokens of a line -/

/-- Going on from a state, the stream is scanned without an error, with these
    tokens in all. -/
def Yields (tokens : List Token) (s : Scanner) : Prop :=
  ∃ n, run n s = ⟨tokens, true⟩

theorem lineGap_of_gap (hgap : ∀ d ∈ gap, isGap d = true) (hc : isGap c = false) (hsharp : c ≠ '#')
    (hcolumn : s.cursor.column ≠ 0) (htabs : (s.inFlow || !s.keyAllowed) = true)
    (hrest : s.cursor.rest = gap ++ c :: tail) : s.lineGap = s.cursor.advance gap.length := by
  have htake : s.cursor.rest.takeWhile (fun d => d == ' ' || (true && d == '\t')) = gap := by
    rw [hrest, List.takeWhile_append_of_pos (by simpa [isGap] using hgap),
      List.takeWhile_cons_of_neg (by simpa [isGap] using hc), List.append_nil]
  have hnone : (s.cursor.advance gap.length).isAt '#' = false := by
    rw [isAt, rest_advance_append hrest]
    simpa using hsharp
  have hstart : (s.cursor.column == 0 && s.cursor.isAt '\uFEFF') = false := by simp [hcolumn]
  simp only [lineGap, hstart, htabs, skipWhile, take, Bool.false_eq_true, if_false, htake]
  rw [skipComment, hnone, if_neg Bool.false_ne_true]

theorem waits_of_dropStale? (h : s.dropStale? = some t) :
    s.Waits t ∧ t.cursor = s.cursor ∧ t.keyAllowed = s.keyAllowed := by
  obtain ⟨blockKey, flowKeys, rfl, hblock, hflow⟩ := dropStale?_eq h
  exact ⟨⟨rfl, rfl, rfl, hblock, hflow⟩, rfl, rfl⟩

/-- A possible key that is not stale stays. -/
theorem flowKeys_of_dropStale? {key : PossibleKey} (hkey : s.flowKeys = [some key])
    (hfresh : isStale s.cursor key = false) (h : s.dropStale? = some t) :
    t.flowKeys = [some key] := by
  have hsame : refresh? s.cursor (some key) = some (some key) := by
    rw [refresh?, hfresh, if_neg Bool.false_ne_true]
  rw [dropStale?] at h
  split at h
  · cases h
  · rw [hkey, List.mapM_cons, hsame] at h
    cases h
    rfl

/-- Where a line goes on, the next token is behind the blanks, and no block is
    closed before it. -/
theorem reach?_of_gap (hgap : ∀ d ∈ gap, isGap d = true) (hc : isGap c = false)
    (hbreak : isBreak c = false) (hsharp : c ≠ '#') (hcolumn : s.cursor.column ≠ 0)
    (htabs : (s.inFlow || !s.keyAllowed) = true) (hblock : s.inFlow = true ∨ s.indent ≤ 0)
    (hrest : s.cursor.rest = gap ++ c :: tail) (h : s.reach? = some t) :
    s.Waits t ∧ t.cursor = s.cursor.advance gap.length ∧ t.keyAllowed = s.keyAllowed ∧
      ∀ key, s.flowKeys = [some key] → isStale t.cursor key = false → t.flowKeys = [some key] := by
  have hgaps : skipGaps (s.cursor.rest.length + 1) s =
      { s with cursor := s.cursor.advance gap.length } := by
    have hline := lineGap_of_gap hgap hc hsharp hcolumn htabs hrest
    rw [skipGaps_of_not_break ?_ _, hline]
    rw [hline, rest_advance_append hrest]
    rintro d ⟨rfl⟩
    exact hbreak
  obtain ⟨u, hu, rfl⟩ := Option.map_eq_some_iff.mp h
  rw [hgaps] at hu
  obtain ⟨hwaits, hcursor, hallowed⟩ := waits_of_dropStale? hu
  have hsame : s.Waits u :=
    ⟨hwaits.tokens, hwaits.indent, hwaits.outer, hwaits.blockKey, hwaits.flowKeys⟩
  have hopen : u.closeBlocks (Int.ofNat u.cursor.column) = u := by
    refine closeBlocks_of_block (hblock.imp (fun hflow => hsame.inFlow.trans hflow) fun hleft => ?_)
    rw [hsame.indent, Int.ofNat_eq_natCast]
    omega
  rw [hopen]
  refine ⟨hsame, hcursor, hallowed, fun key hkey hfresh => ?_⟩
  rw [hcursor] at hfresh
  exact flowKeys_of_dropStale? (s := { s with cursor := s.cursor.advance gap.length }) hkey hfresh
    hu

/-- The next token of a line is read, and scanning goes on behind it. -/
theorem Yields.token (hgap : ∀ d ∈ gap, isGap d = true) (hc : isGap c = false)
    (hbreak : isBreak c = false) (hsharp : c ≠ '#') (hcolumn : s.cursor.column ≠ 0)
    (htabs : (s.inFlow || !s.keyAllowed) = true) (hblock : s.inFlow = true ∨ s.indent ≤ 0)
    (hrest : s.cursor.rest = gap ++ c :: tail) (h : s.Yields tokens) :
    ∃ there next, s.Waits there ∧ there.cursor = s.cursor.advance gap.length ∧
      there.keyAllowed = s.keyAllowed ∧
      (∀ key, s.flowKeys = [some key] → isStale there.cursor key = false →
        there.flowKeys = [some key]) ∧
      there.token? c tail = some next ∧ next.Yields tokens := by
  obtain ⟨n, hrun⟩ := h
  obtain ⟨m, there, -, hreach, hthere⟩ := run_cases hrun
  obtain ⟨hwaits, hcursor, hallowed, hfresh⟩ :=
    reach?_of_gap hgap hc hbreak hsharp hcolumn htabs hblock hrest hreach
  have hplace : there.cursor.rest = c :: tail := by rw [hcursor, rest_advance_append hrest]
  rcases hthere with ⟨hnil, -⟩ | ⟨c', tail', next, hcons, hnext, hlater⟩
  · rw [hplace] at hnil
    cases hnil
  · rw [hplace] at hcons
    cases hcons
    exact ⟨there, next, hwaits, hcursor, hallowed, hfresh, hnext, m, hlater⟩

/-! ## Which token starts where -/

/-- A plain scalar starts with a dash or with no mark at all. -/
theorem mark_of_startsPlain (h : startsPlain true (c :: tail) = true) :
    (isGap c || isBreak c || "-?:,[]\x7b\x7d#&*!|>'\"%@\x60".toList.contains c) = false ∨
      c = '-' := by
  simp only [startsPlain, Bool.not_true, Bool.false_and, Bool.or_false, Bool.or_eq_true,
    Bool.not_eq_true', Bool.and_eq_true, beq_iff_eq] at h
  exact h.imp_right And.left

theorem first_of_startsPlain (h : startsPlain true (c :: tail) = true) :
    isGap c = false ∧ isBreak c = false ∧ c ≠ '#' ∧ c ≠ '\'' ∧ c ≠ '"' := by
  rcases mark_of_startsPlain h with hother | rfl
  · simp only [Bool.or_eq_false_iff] at hother
    obtain ⟨⟨hgap, hbreak⟩, hmark⟩ := hother
    refine ⟨hgap, hbreak, ?_, ?_, ?_⟩ <;> (rintro rfl; revert hmark; decide)
  · decide

/-- Where a plain scalar may start, one is read. -/
theorem token?_plain (hrest : s.cursor.rest = c :: tail)
    (hstarts : startsPlain true (c :: tail) = true) (hnext : ∃ d ∈ tail.head?, isBreak d = false)
    (hmark : s.cursor.column = 0 → atDocumentMark s.cursor.rest = false) :
    s.token? c tail = s.plain? := by
  have hstarts' : startsPlain s.inFlow s.cursor.rest = true := by
    rw [hrest]
    simp only [startsPlain, Bool.not_true, Bool.false_and, Bool.or_false] at hstarts
    simp only [startsPlain, hstarts, Bool.true_or]
  have hmark' : ∀ d : Char, (s.cursor.column == 0 && c == d && atDocumentMark s.cursor.rest) =
      false := by
    intro d
    by_cases hzero : s.cursor.column = 0
    · rw [hmark hzero, Bool.and_false]
    · simp [hzero]
  rcases mark_of_startsPlain hstarts with hother | rfl
  · simp at hother
    simp [token?, hmark', hstarts', hother]
  · have hgap : atGap tail = false := by
      obtain ⟨d, hd, hbreak⟩ := hnext
      obtain ⟨tail, rfl⟩ := List.head?_eq_some_iff.mp hd
      have hblank : isGap d = false := by simpa [startsPlain] using hstarts
      simp [atGap, hblank, hbreak]
    by_cases hzero : s.cursor.column = 0
    · simp [token?, hstarts', hgap, hmark hzero]
    · simp [token?, hstarts', hgap, hzero]

theorem token?_quote {single : Bool} : s.token? (quoteMark single) tail = s.quote? single := by
  cases single <;> simp [token?, quoteMark]

theorem token?_separator : s.token? ',' tail = s.separator? := by
  simp [token?]

theorem token?_openFlow : s.token? '\x7b' tail = s.openFlow? .flowMapping := by
  simp [token?]

theorem token?_value (h : s.inFlow = true ∨ atGap tail = true) : s.token? ':' tail = s.value? := by
  have hvalue : (s.inFlow || atGap tail) = true := by simpa using h
  simp [token?, hvalue]

/-! ## Inside a flow mapping -/

/-- Inside the one flow mapping of a line, with these tokens read and this text
    ahead: no possible key is remembered. -/
structure InMapping (read : List Token) (allowed : Bool) (z : List Char) (s : Scanner) : Prop where
  rest : s.cursor.rest = z
  column : s.cursor.column ≠ 0
  tokens : s.tokens = read
  allowed : s.keyAllowed = allowed
  flowKeys : s.flowKeys = [none]
  blockKey : s.blockKey = none

/-- A run without an error, with these tokens in all, comes by this place of
    the flow mapping of a line. -/
def Within (tokens read : List Token) (allowed : Bool) (z : List Char) : Prop :=
  ∃ s : Scanner, s.Yields tokens ∧ s.InMapping read allowed z

theorem InMapping.inFlow (h : s.InMapping read allowed z) : s.inFlow = true := by
  rw [Scanner.inFlow, h.flowKeys]
  rfl

/-- Between two tokens no key appears. -/
theorem InMapping.wait (h : s.InMapping read allowed (gap ++ z)) (hwaits : s.Waits t)
    (hcursor : t.cursor = s.cursor.advance gap.length) (hallowed : t.keyAllowed = s.keyAllowed) :
    t.InMapping read allowed z := by
  refine ⟨?_, ?_, hwaits.tokens.trans h.tokens, hallowed.trans h.allowed, ?_, ?_⟩
  · rw [hcursor, rest_advance_append h.rest]
  · have hcolumn := h.column
    rw [hcursor, column_advance]
    omega
  · have hkeys := hwaits.flowKeys
    rw [h.flowKeys] at hkeys
    obtain ⟨key, keys, hkey, hnil, heq⟩ := List.forall₂_cons_left_iff.mp hkeys
    rw [heq, List.forall₂_nil_left_iff.mp hnil, hkey.elim id id]
  · exact hwaits.blockKey.elim id fun hkey => hkey.trans h.blockKey

/-- The next token of the mapping. -/
theorem Within.token (hgap : ∀ d ∈ gap, isGap d = true) (hc : isGap c = false)
    (hbreak : isBreak c = false) (hsharp : c ≠ '#')
    (h : Within tokens read allowed (gap ++ c :: tail)) :
    ∃ s next : Scanner, s.InMapping read allowed (c :: tail) ∧ s.token? c tail = some next ∧
      next.Yields tokens := by
  obtain ⟨s, hyields, hs⟩ := h
  obtain ⟨there, next, hwaits, hcursor, hallowed, -, hnext, hyields'⟩ :=
    hyields.token hgap hc hbreak hsharp hs.column (by rw [hs.inFlow]; rfl) (.inl hs.inFlow) hs.rest
  exact ⟨there, next, hs.wait hwaits hcursor hallowed, hnext, hyields'⟩

theorem InMapping.dropKey? (h : s.InMapping read allowed z) : s.dropKey? = some s := by
  rw [Scanner.dropKey?, currentKey, h.flowKeys]

/-- Where no key may start, none is remembered. -/
theorem InMapping.saveKey? (h : s.InMapping read false z) : s.saveKey? = some s := by
  rw [Scanner.saveKey?, h.allowed, if_neg Bool.false_ne_true]

theorem Within.separator (hgap : ∀ c ∈ gap, isGap c = true)
    (h : Within tokens read allowed (gap ++ ',' :: z)) :
    Within tokens (.separator :: read) true z := by
  obtain ⟨s, next, hs, hnext, hyields⟩ := Within.token hgap (by decide) (by decide) (by decide) h
  rw [token?_separator, separator?, hs.dropKey?] at hnext
  cases hnext
  refine ⟨_, hyields, ?_, by simp [emit], congrArg _ hs.tokens, rfl, hs.flowKeys, hs.blockKey⟩
  exact rest_advance_one hs.rest

/-- A scalar in quotes. -/
theorem Within.quote {single : Bool} {text : List Char} (hgap : ∀ d ∈ gap, isGap d = true)
    (htext : ∀ c ∈ text, Quotable single c) (hafter : single = true → z.head? ≠ some '\'')
    (h : Within tokens read false
      (gap ++ quoteMark single :: (text.flatMap (inQuotes single) ++ quoteMark single :: z))) :
    Within tokens (.scalar text false :: read) false z := by
  obtain ⟨s, next, hs, hnext, hyields⟩ := Within.token hgap (by cases single <;> decide)
    (by cases single <;> decide) (by cases single <;> decide) h
  rw [token?_quote, quote?, hs.saveKey?] at hnext
  simp only [quoted?_text htext hafter hs.rest, Option.map_some, Option.some.injEq] at hnext
  subst hnext
  have hplace : (s.cursor.advance ((text.flatMap (inQuotes single)).length + 2)).rest = z := by
    have hbehind : s.cursor.rest =
        (quoteMark single :: (text.flatMap (inQuotes single) ++ [quoteMark single])) ++ z := by
      rw [hs.rest, List.cons_append, List.append_assoc]
      rfl
    have hrest := rest_advance_append hbehind
    rwa [List.length_cons, List.length_append] at hrest
  exact ⟨_, hyields, hplace, by simp, congrArg _ hs.tokens, rfl, hs.flowKeys, hs.blockKey⟩

/-- Where a plain scalar is written, one is read, with the blanks behind it. -/
theorem plain?_of_text {text gap' : List Char} {d : Char}
    (hs : s.cursor.rest = text ++ (gap' ++ d :: z))
    (hfirst : ∃ c ∈ text.head?, isGap c = false ∧ c ≠ '#') (hplain : isPlain text = true)
    (hlast : ∀ c ∈ text.getLast?, isGap c = false) (hgap' : ∀ c ∈ gap', isGap c = true)
    (hends : EndsWord s.inFlow (d :: z)) (hd : isGap d = false) (hbreak : isBreak d = false)
    (hright : s.inFlow = true ∨ s.indent ≤ 0)
    (hmark : s.cursor.column = 0 → atDocumentMark s.cursor.rest = false)
    (ht : s.saveKey? = some t) :
    s.plain? = some { (t.push (.scalar text true)) with
      cursor := s.cursor.advance (text.length + gap'.length), keyAllowed := false } := by
  obtain ⟨hflow, hindent⟩ := block_of_saveKey? ht
  have hcursor := cursor_of_saveKey? ht
  have hright' : s.inFlow = true ∨ (s.indent + 1).toNat ≤ s.cursor.column + 1 :=
    hright.imp_right fun h => by omega
  rw [plain?, ht]
  simp only [hflow, hindent, hcursor, plainScalar?_text hends hd hbreak hgap' hfirst hlast hplain
    hright' hmark hs, Option.map_some]

/-- A plain scalar that is no key. -/
theorem Within.plain {text gap' : List Char} {d : Char} (hgap : ∀ c ∈ gap, isGap c = true)
    (hstarts : startsPlain true (text ++ (gap' ++ d :: z)) = true) (hne : text ≠ [])
    (hplain : isPlain text = true) (hlast : ∀ c ∈ text.getLast?, isGap c = false)
    (hgap' : ∀ c ∈ gap', isGap c = true) (hd : d = ',' ∨ d = '\x7d')
    (h : Within tokens read false (gap ++ (text ++ (gap' ++ d :: z)))) :
    Within tokens (.scalar text true :: read) false (d :: z) := by
  obtain ⟨c, rest, rfl⟩ := List.exists_cons_of_ne_nil hne
  obtain ⟨hc, hcbreak, hsharp, -⟩ := first_of_startsPlain hstarts
  obtain ⟨hmark, hdgap, hbreak⟩ : isFlowMark d = true ∧ isGap d = false ∧ isBreak d = false := by
    rcases hd with rfl | rfl <;> decide
  obtain ⟨s, next, hs, hnext, hyields⟩ := Within.token hgap hc hcbreak hsharp h
  have hbehind : ∃ e ∈ (rest ++ (gap' ++ d :: z)).head?, isBreak e = false := by
    cases rest with
    | cons e rest => exact ⟨e, rfl, (isPlain_cons (isPlain_cons hplain).2.2.2.2).1⟩
    | nil =>
      cases gap' with
      | nil => exact ⟨d, rfl, hbreak⟩
      | cons e gap' =>
        refine ⟨e, rfl, ?_⟩
        have he := hgap' e List.mem_cons_self
        simp only [isGap, Bool.or_eq_true, beq_iff_eq] at he
        rcases he with rfl | rfl <;> decide
  have hends : EndsWord s.inFlow (d :: z) := ⟨d, z, rfl, .inr (.inr ⟨hs.inFlow, hmark⟩)⟩
  have htext : s.cursor.rest = (c :: rest) ++ (gap' ++ d :: z) := hs.rest
  rw [token?_plain hs.rest hstarts hbehind fun hzero => absurd hzero hs.column,
    plain?_of_text htext ⟨c, rfl, hc, hsharp⟩ hplain hlast hgap' hends hdgap hbreak (.inl hs.inFlow)
      (fun hzero => absurd hzero hs.column) hs.saveKey?] at hnext
  cases hnext
  have hplace : (s.cursor.advance ((c :: rest).length + gap'.length)).rest = d :: z := by
    rw [← advance_advance]
    exact rest_advance_append (rest_advance_append htext)
  exact ⟨_, hyields, hplace, by simp, congrArg _ hs.tokens, rfl, hs.flowKeys, hs.blockKey⟩

/-- A scalar that is no key. -/
theorem Within.scalar {value z' : List Char} {plain : Bool} (hgap : ∀ c ∈ gap, isGap c = true)
    (hvalue : ScalarAt value plain z z') (h : Within tokens read false (gap ++ z)) :
    Within tokens (.scalar value plain :: read) false z' := by
  cases hvalue with
  | quoted hvalue hafter => exact h.quote hgap hvalue hafter
  | plain hstarts hne hplain hlast hgap' hc => exact h.plain hgap hstarts hne hplain hlast hgap' hc

/-- The colon behind a possible key of a flow mapping. -/
theorem value?_of_key {key : PossibleKey} {mark : Token} (hflow : s.flowKeys = [some key])
    (htokens : s.tokens = mark :: read) (hnumber : key.number = read.length) :
    s.value? = some ({ s with
      tokens := mark :: .key :: read, flowKeys := [none], keyAllowed := false }.emit 1 .value) := by
  obtain ⟨cursor, _, indent, outer, keyAllowed, _, blockKey⟩ := s
  obtain rfl := hflow
  obtain rfl := htokens
  simp [value?, currentKey, insertAt, openBlock, inFlow, setKey, hnumber]

/-- A word where a key may start is remembered as one up to its colon. -/
theorem Within.possibleKey (hgap : ∀ c ∈ gap, isGap c = true) (hword : isWord word = true)
    (hlong : word.length ≤ 1024) (hz : atGap z = true)
    (h : Within tokens read true (gap ++ (word ++ ':' :: z))) :
    ∃ (s : Scanner) (key : PossibleKey), s.Yields tokens ∧ s.cursor.rest = ':' :: z ∧
      s.cursor.column ≠ 0 ∧ s.tokens = .scalar word true :: read ∧ s.flowKeys = [some key] ∧
      s.blockKey = none ∧ key.number = read.length ∧ isStale s.cursor key = false := by
  obtain ⟨c, rest, rfl, -, hname⟩ := exists_of_isWord hword
  have hstarts := startsPlain_of_isWord hword (':' :: z)
  obtain ⟨hc, hbreak, hsharp, -⟩ := first_of_startsPlain hstarts
  obtain ⟨s, next, hs, hnext, hyields⟩ := Within.token hgap hc hbreak hsharp h
  obtain ⟨key, hkey⟩ : ∃ key : PossibleKey, key = ⟨s.tokens.length,
    !s.inFlow && s.indent == Int.ofNat s.cursor.column, s.cursor.index, s.cursor.line,
    s.cursor.column⟩ := ⟨_, rfl⟩
  have hsave : s.saveKey? = some { s with flowKeys := [some key] } := by
    rw [Scanner.saveKey?, if_pos hs.allowed, hs.dropKey?, Option.map_some, setKey, hs.flowKeys,
      hkey]
  have hbehind : ∃ e ∈ (rest ++ ':' :: z).head?, isBreak e = false := by
    cases rest with
    | cons e rest => exact ⟨e, rfl, (isNameChar_plain (hname e (by simp))).2.1⟩
    | nil => exact ⟨':', rfl, rfl⟩
  have hlast : ∀ e ∈ (c :: rest).getLast?, isGap e = false := fun e he =>
    (isNameChar_plain (hname e (List.mem_of_getLast? he))).1
  have htext : s.cursor.rest = (c :: rest) ++ ([] ++ ':' :: z) := hs.rest
  rw [token?_plain hs.rest hstarts hbehind fun hzero => absurd hzero hs.column,
    plain?_of_text htext ⟨c, rfl, hc, hsharp⟩
      (isPlain_of_names hname) hlast (by simp) ⟨':', z, rfl, .inr (.inl ⟨rfl, hz⟩)⟩ (by decide)
      (by decide) (.inl hs.inFlow) (fun hzero => absurd hzero hs.column) hsave] at hnext
  cases hnext
  have hindex : (s.cursor.advance (c :: rest).length).index =
      s.cursor.index + (c :: rest).length := by
    have hrest : s.cursor.rest = (c :: rest) ++ ':' :: z := hs.rest
    rw [advance, hrest, List.take_left' rfl, size_of_names hname]
  refine ⟨_, key, hyields, rest_advance_append hs.rest, by simp, congrArg _ hs.tokens, rfl,
    hs.blockKey, by rw [hkey, hs.tokens], ?_⟩
  simp only [isStale, hkey, List.length_nil, Nat.add_zero, line_advance, hindex]
  simp only [Bool.or_eq_false_iff, decide_eq_false_iff_not]
  omega

/-- A word that is a key, and its colon. -/
theorem Within.key (hgap : ∀ c ∈ gap, isGap c = true) (hword : isWord word = true)
    (hlong : word.length ≤ 1024) (hz : atGap z = true)
    (h : Within tokens read true (gap ++ (word ++ ':' :: z))) :
    Within tokens (.value :: .scalar word true :: .key :: read) false z := by
  obtain ⟨s, key, hyields, hrest, hcolumn, htokens, hflow, hblock, hnumber, hfresh⟩ :=
    h.possibleKey hgap hword hlong hz
  have hinside : s.inFlow = true := by rw [inFlow, hflow]; rfl
  have hhere : s.cursor.rest = [] ++ ':' :: z := hrest
  obtain ⟨there, next, hwaits, hcursor, -, hkept, hnext, hyields'⟩ :=
    hyields.token (by simp) (by decide) (by decide) (by decide) hcolumn
      (by rw [hinside]; rfl) (.inl hinside) hhere
  rw [List.length_nil, advance_zero] at hcursor
  have hkeys := hkept key hflow (by rwa [hcursor])
  rw [token?_value (.inl (hwaits.inFlow.trans hinside)),
    value?_of_key hkeys (hwaits.tokens.trans htokens) hnumber] at hnext
  cases hnext
  refine ⟨_, hyields', ?_, by simp [emit], rfl, rfl, rfl, ?_⟩
  · exact rest_advance_one (hcursor ▸ hrest)
  · exact hwaits.blockKey.elim id fun hkey => hkey.trans hblock

/-- Entries are read one after the other. -/
theorem Within.entries {entries : List (List Char × List Char × Bool)} {z' : List Char}
    (h : EntriesAt entries z z') : ∀ {read : List Token}, Within tokens read true z →
      Within tokens ((entryTokens entries).reverse ++ read) true z' := by
  induction h with
  | nil z => exact id
  | @cons gap key gap' value x gap'' y z plain entries hgap hkey hlong hgap' hne hvalue hgap'' _
      ih =>
    intro read hwithin
    have hblank : atGap (gap' ++ x) = true := by
      obtain ⟨g, gap', rfl⟩ := List.exists_cons_of_ne_nil hne
      simp [atGap, hgap' g List.mem_cons_self]
    have hread := ((hwithin.key hgap hkey hlong hblank).scalar hgap' hvalue).separator hgap''
    simpa [entryTokens] using ih hread

/-! ## The tokens in all -/

/-- Tokens that stay are the first of all. -/
theorem prefix_of_frozen {base : List Token} :
    ∀ {n : Nat} {s : Scanner}, s.Frozen base → run n s = ⟨tokens, true⟩ →
      base.reverse <+: tokens := by
  intro n
  induction n with
  | zero =>
    intro s _ hrun
    cases hrun
  | succ n ih =>
    intro s hs hrun
    obtain ⟨m, there, hm, hreach, hthere⟩ := run_cases hrun
    obtain rfl : n = m := Nat.succ_inj.mp hm
    have hfrozen := (moves_reach? hreach).frozen hs
    rcases hthere with ⟨-, hfinish⟩ | ⟨c, tail, next, -, hnext, hlater⟩
    · obtain ⟨u, hu, rfl⟩ := Option.map_eq_some_iff.mp hfinish
      rw [tokens_of_dropKey? hu, List.reverse_prefix]
      exact ((moves_closeBlocks there (-1)).frozen hfrozen).1
    · exact ih ((moves_token? hnext).frozen hfrozen) hlater

/-- What was read inside the mapping of a line are the first tokens of the stream. -/
theorem Within.firstTokens (h : Within tokens read allowed z) : read.reverse <+: tokens := by
  obtain ⟨s, ⟨n, hrun⟩, hs⟩ := h
  refine prefix_of_frozen ⟨?_, fun key hkey => ?_, fun key hkey => ?_⟩ hrun
  · exact hs.tokens ▸ List.suffix_refl read
  · rw [hs.blockKey] at hkey
    cases hkey
  · rw [hs.flowKeys] at hkey
    simp at hkey

/-! ## A key at the left margin -/

theorem atDocumentMark_of_isWord (h : isWord word = true) (behind : List Char) :
    atDocumentMark (word ++ behind) = false := by
  obtain ⟨c, rest, rfl, hdash, hname⟩ := exists_of_isWord h
  have hpoint := ne_of_isNameChar (hname c List.mem_cons_self) (d := '.') (by decide)
  rw [List.cons_append]
  unfold atDocumentMark
  split
  · rename_i heq
    exact absurd (List.cons.inj heq).1 hdash
  · rename_i heq
    exact absurd (List.cons.inj heq).1 hpoint
  · rfl

/-- The colon behind a possible key at the left margin, which opens the root
    mapping if none is open. -/
theorem value?_of_blockKey {key : PossibleKey} {mark : Token} (hflow : s.flowKeys = [])
    (hkey : s.blockKey = some key) (htokens : s.tokens = mark :: read)
    (hnumber : key.number = read.length) (hcolumn : key.column = 0)
    (hindent : s.indent = -1 ∨ s.indent = 0) (ht : s.value? = some t) :
    ∃ base, (s.indent = -1 ∧ base = .blockMapping :: read ∨ s.indent = 0 ∧ base = read) ∧
      t.cursor = s.cursor.advance 1 ∧ t.tokens = .value :: mark :: .key :: base ∧ t.indent = 0 ∧
      t.keyAllowed = false ∧ t.flowKeys = [] ∧ t.blockKey = none := by
  obtain ⟨cursor, _, indent, outer, keyAllowed, _, _⟩ := s
  obtain rfl := hflow
  obtain rfl := hkey
  obtain rfl := htokens
  have hbehind : read.length + 1 + 1 - read.length = 2 := by omega
  simp only [value?, currentKey, insertAt, openBlock, inFlow, hnumber, hcolumn, List.length_cons,
    Nat.add_sub_cancel_left, List.take_succ_cons, List.take_zero, List.drop_succ_cons,
    List.drop_zero, List.cons_append, List.nil_append, hbehind] at ht
  rcases hindent with hindent | hindent
  · obtain rfl : indent = -1 := hindent
    cases ht
    exact ⟨.blockMapping :: read, .inl ⟨rfl, rfl⟩, rfl, rfl, rfl, rfl, rfl, rfl⟩
  · obtain rfl : indent = 0 := hindent
    cases ht
    exact ⟨read, .inr ⟨rfl, rfl⟩, rfl, rfl, rfl, rfl, rfl, rfl⟩

end Scanner

open Scanner

variable {s next : Scanner} {tokens : List Token}

/-- At the left margin, what is remembered as a key is what starts there. -/
theorem AtLineStart.keys_of_saveKey? (h : AtLineStart z s) (hnext : s.saveKey? = some next) :
    next.tokens = s.tokens ∧ next.flowKeys = [] ∧
      ∀ key, next.blockKey = some key → key.number = s.tokens.length ∧ key.column = 0 := by
  have hflow : s.flowKeys = [] := by
    simpa [Scanner.inFlow] using h.inFlow
  rw [saveKey?] at hnext
  split at hnext
  · obtain ⟨u, hu, rfl⟩ := Option.map_eq_some_iff.mp hnext
    have hset : u.flowKeys = [] := by
      rcases eq_setKey_of_dropKey? hu with ⟨rfl, -⟩ | rfl
      · exact hflow
      · rw [setKey, hflow]
    rw [tokens_setKey, tokens_of_dropKey? hu, setKey, hset]
    refine ⟨rfl, rfl, ?_⟩
    rintro key ⟨rfl⟩
    exact ⟨rfl, h.column⟩
  · rename_i hallowed
    cases hnext
    have hnone : s.blockKey = none := by
      simpa [currentKey, hflow] using h.key.resolve_left hallowed
    refine ⟨rfl, hflow, fun key hkey => ?_⟩
    rw [hnone] at hkey
    cases hkey

/-- A word at the left margin is remembered as a key, if one may start there. -/
theorem AtLineStart.possibleKey (h : AtLineStart (word ++ ':' :: z) s) (hword : isWord word = true)
    (hz : atGap z = true) (hrest : word ++ ':' :: z = c :: tail)
    (hnext : s.token? c tail = some next) :
    next.cursor.rest = ':' :: z ∧ next.cursor.column ≠ 0 ∧
      next.tokens = .scalar word true :: s.tokens ∧ next.indent = s.indent ∧
      next.keyAllowed = false ∧ next.flowKeys = [] ∧
      ∀ key, next.blockKey = some key → key.number = s.tokens.length ∧ key.column = 0 := by
  obtain ⟨d, rest, rfl, -, hname⟩ := exists_of_isWord hword
  cases hrest
  have hstarts := startsPlain_of_isWord hword (':' :: z)
  obtain ⟨hc, hbreak, hsharp, -⟩ := first_of_startsPlain hstarts
  have hmark : s.cursor.column = 0 → atDocumentMark s.cursor.rest = false := fun _ => by
    rw [h.rest]
    exact atDocumentMark_of_isWord hword (':' :: z)
  have hbehind : ∃ e ∈ (rest ++ ':' :: z).head?, isBreak e = false := by
    cases rest with
    | cons e rest => exact ⟨e, rfl, (isNameChar_plain (hname e (by simp))).2.1⟩
    | nil => exact ⟨':', rfl, rfl⟩
  have hlast : ∀ e ∈ (c :: rest).getLast?, isGap e = false := fun e he =>
    (isNameChar_plain (hname e (List.mem_of_getLast? he))).1
  have hright : s.inFlow = true ∨ s.indent ≤ 0 := .inr (by have := h.indent; omega)
  rw [token?_plain h.rest hstarts hbehind hmark] at hnext
  have hsave : ∃ u, s.saveKey? = some u := by
    rw [plain?] at hnext
    split at hnext
    · cases hnext
    · exact ⟨_, ‹_›⟩
  obtain ⟨u, hu⟩ := hsave
  have htext : s.cursor.rest = (c :: rest) ++ ([] ++ ':' :: z) := h.rest
  rw [plain?_of_text htext ⟨c, rfl, hc, hsharp⟩
    (isPlain_of_names hname) hlast (by simp) ⟨':', z, rfl, .inr (.inl ⟨rfl, hz⟩)⟩ (by decide)
    (by decide) hright hmark hu] at hnext
  cases hnext
  obtain ⟨htokens, hflow, hkeys⟩ := h.keys_of_saveKey? hu
  exact ⟨rest_advance_append h.rest, by simp, congrArg _ htokens, (block_of_saveKey? hu).2, rfl,
    hflow, hkeys⟩

/-- Behind a brace where no key may start, the scanner is inside a flow mapping. -/
theorem within_of_openFlow? (hflow : s.flowKeys = []) (hblock : s.blockKey = none)
    (hallowed : s.keyAllowed = false) (hrest : s.cursor.rest = '\x7b' :: z)
    (hnext : s.openFlow? .flowMapping = some next) (hyields : next.Yields tokens) :
    Within tokens (.flowMapping :: s.tokens) true z := by
  rw [openFlow?, saveKey?, hallowed, if_neg Bool.false_ne_true, Option.map_some] at hnext
  cases hnext
  refine ⟨_, hyields, rest_advance_one hrest, by simp [emit], rfl, rfl, ?_,
    hblock⟩
  exact congrArg (none :: ·) hflow

/-- The colon behind a word at the left margin, and a brace behind it: the
    scanner is inside a flow mapping, with no tokens before the key but those
    that it found at the line. -/
theorem AtLineStart.within {text : List Char} (h : AtLineStart text s) (hword : isWord word = true)
    (hgap : ∀ c ∈ gap, isGap c = true) (hne : gap ≠ [])
    (htext : text = word ++ ':' :: (gap ++ '\x7b' :: z)) (hrest : text = c :: tail)
    (hnext : s.token? c tail = some next) (hyields : next.Yields tokens) :
    ∃ base, (s.indent = -1 ∧ base = .blockMapping :: s.tokens ∨ s.indent = 0 ∧ base = s.tokens) ∧
      Within tokens (.flowMapping :: .value :: .scalar word true :: .key :: base) true z := by
  subst htext
  have hblank : atGap (gap ++ '\x7b' :: z) = true := by
    obtain ⟨g, gap, rfl⟩ := List.exists_cons_of_ne_nil hne
    simp [atGap, hgap g List.mem_cons_self]
  obtain ⟨hplace, hcolumn, htokens, hindent, hallowed, hflow, hkeys⟩ :=
    h.possibleKey hword hblank hrest hnext
  have hleft : next.indent = -1 ∨ next.indent = 0 := hindent ▸ h.indent
  have hhere : next.cursor.rest = [] ++ ':' :: (gap ++ '\x7b' :: z) := hplace
  obtain ⟨colon, value, hwaits, hcursor, hallowed₁, -, hvalue, hyields₁⟩ :=
    hyields.token (by simp) (by decide) (by decide) (by decide) hcolumn
      (by rw [hallowed, Bool.not_false, Bool.or_true]) (.inr (by omega)) hhere
  rw [List.length_nil, advance_zero] at hcursor
  have hnone : ∀ {t u : Scanner}, t.Waits u → t.flowKeys = [] → u.flowKeys = [] := by
    intro t u hwaits hflow
    have hkept := hwaits.flowKeys
    rw [hflow] at hkept
    exact List.forall₂_nil_left_iff.mp hkept
  have hflow₁ := hnone hwaits hflow
  rw [token?_value (.inr hblank)] at hvalue
  cases hkey : colon.blockKey with
  | none =>
    -- without a key, no colon may stand here
    have hvalue' : colon.value? = none := by
      simp [value?, currentKey, hflow₁, hkey, Scanner.inFlow, hallowed₁, hallowed]
    rw [hvalue'] at hvalue
    cases hvalue
  | some key =>
    obtain ⟨hnumber, hleftmost⟩ := hkeys key
      ((hwaits.blockKey.resolve_left (by simp [hkey])).symm.trans hkey)
    obtain ⟨base, hbase, hcursor₁, htokens₁, hindent₁, hallowed₂, hflow₂, hblock₂⟩ :=
      value?_of_blockKey hflow₁ hkey (hwaits.tokens.trans htokens) hnumber hleftmost
        (hwaits.indent.symm ▸ hleft) hvalue
    rw [hwaits.indent, hindent] at hbase
    refine ⟨base, hbase, ?_⟩
    have hplace₁ : value.cursor.rest = gap ++ '\x7b' :: z := by
      rw [hcursor₁, hcursor]
      exact rest_advance_one hplace
    obtain ⟨brace, inside, hwaits₁, hcursor₂, hallowed₃, -, hinside, hyields₂⟩ :=
      hyields₁.token hgap (by decide) (by decide) (by decide)
        (by rw [hcursor₁, column_advance]; omega) (by rw [hallowed₂, Bool.not_false, Bool.or_true])
        (.inr (Int.le_of_eq hindent₁)) hplace₁
    rw [token?_openFlow] at hinside
    rw [← htokens₁, ← hwaits₁.tokens]
    exact within_of_openFlow? (hnone hwaits₁ hflow₂)
      (hwaits₁.blockKey.elim id fun hsame => hsame.trans hblock₂) (hallowed₃.trans hallowed₂)
      (by rw [hcursor₂, rest_advance_append hplace₁]) hinside hyields₂

end CompilerRemarks.Yaml
