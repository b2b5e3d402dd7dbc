/-
  CompilerRemarks.Proofs.Yaml.Line

  What the readers of a stream find on the lines of a text does not depend on
  the lines behind it. A cursor walks over a text whose last line is ended, and
  stands in a line or, behind the last one, at the start of a line
  (`Cursor.Lined`). The text may go on with another line (`Cursor.onto`); what
  a reader reads before is the same.
-/
import CompilerRemarks.Yaml.Token.Scan
import Mathlib.Data.List.TakeWhile

namespace CompilerRemarks.Yaml

/-! ## Cursors -/

/-- A line that starts with a character of a token: no blank, no break, no
    comment and no byte order mark. -/
def StartsToken (z : List Char) : Prop :=
  ∃ c tail, z = c :: tail ∧ isGap c = false ∧ isBreak c = false ∧ c ≠ '#' ∧ c ≠ '\uFEFF'

namespace Cursor

/-- The same place in a text that goes on with `z`. -/
def onto (z : List Char) (cur : Cursor) : Cursor :=
  { cur with rest := cur.rest ++ z }

/-- In a line of a text whose last line is ended. -/
def InLine (cur : Cursor) : Prop :=
  ∃ init, cur.rest = init ++ ['\n']

/-- In a line, or behind the last line of a text. -/
def Lined (cur : Cursor) : Prop :=
  cur.InLine ∨ cur.rest = [] ∧ cur.column = 0

variable {z : List Char} {cur : Cursor} {c : Char} {tail : List Char}

@[simp] theorem rest_onto : (cur.onto z).rest = cur.rest ++ z := rfl

@[simp] theorem column_onto : (cur.onto z).column = cur.column := rfl

@[simp] theorem line_onto : (cur.onto z).line = cur.line := rfl

@[simp] theorem index_onto : (cur.onto z).index = cur.index := rfl

@[simp] theorem rest_advance (n : Nat) : (cur.advance n).rest = cur.rest.drop n := rfl

@[simp] theorem column_advance (n : Nat) : (cur.advance n).column = cur.column + n := rfl

theorem InLine.ne_nil (h : cur.InLine) : cur.rest ≠ [] := by
  obtain ⟨init, hrest⟩ := h
  simp [hrest]

theorem InLine.exists_cons (h : cur.InLine) : ∃ c tail, cur.rest = c :: tail :=
  List.exists_cons_of_ne_nil h.ne_nil

theorem Lined.inLine (h : cur.Lined) (hne : cur.rest ≠ []) : cur.InLine :=
  h.resolve_right fun hend => hne hend.1

/-- Before a character that ends no line there is more of the line. -/
theorem InLine.tail_ne_nil (h : cur.InLine) (hrest : cur.rest = c :: tail) (hc : c ≠ '\n') :
    ∃ init, tail = init ++ ['\n'] := by
  obtain ⟨init, hinit⟩ := h
  cases init with
  | nil =>
    rw [hrest, List.nil_append, List.cons.injEq] at hinit
    exact absurd hinit.1 hc
  | cons d init =>
    rw [hrest, List.cons_append, List.cons.injEq] at hinit
    exact ⟨init, hinit.2⟩

/-! ## Steps in a line -/

theorem onto_advance {n : Nat} (h : n ≤ cur.rest.length) :
    (cur.onto z).advance n = (cur.advance n).onto z := by
  simp [onto, advance, List.drop_append_of_le_length h, List.take_append_of_le_length h]

theorem InLine.advance (h : cur.InLine) {n : Nat} (hn : ∀ c ∈ cur.rest.take n, c ≠ '\n') :
    (cur.advance n).InLine := by
  obtain ⟨init, hrest⟩ := h
  have hle : n ≤ init.length := by
    by_contra hlt
    have hmem : '\n' ∈ cur.rest.take n := by
      rw [hrest, List.take_of_length_le (by simp; omega)]
      simp
    exact hn '\n' hmem rfl
  refine ⟨init.drop n, ?_⟩
  rw [rest_advance, hrest, List.drop_append_of_le_length hle]

/-- A step over one character that ends no line stays in the line. -/
theorem InLine.advance_one (h : cur.InLine) (hrest : cur.rest = c :: tail) (hc : c ≠ '\n') :
    (cur.advance 1).InLine := by
  refine h.advance ?_
  simp [hrest, hc]

theorem onto_advance_one (hrest : cur.rest = c :: tail) :
    (cur.onto z).advance 1 = (cur.advance 1).onto z :=
  onto_advance (by simp [hrest])

/-- A text with a character that has not a property is cut at the first one. -/
theorem exists_cut {p : Char → Bool} {s : List Char} (h : ∃ c ∈ s, p c = false) :
    ∃ word d tail, s = word ++ d :: tail ∧ (∀ c ∈ word, p c = true) ∧ p d = false := by
  induction s with
  | nil => simp at h
  | cons c s ih =>
    by_cases hc : p c = true
    · obtain ⟨word, d, tail, rfl, hword, hd⟩ := ih (by simpa [hc] using h)
      exact ⟨c :: word, d, tail, rfl, List.forall_mem_cons.mpr ⟨hc, hword⟩, hd⟩
    · exact ⟨[], c, s, rfl, List.forall_mem_nil _, by simpa using hc⟩

theorem take_of_cut {p : Char → Bool} {word : List Char} {d : Char}
    (hrest : cur.rest = word ++ d :: tail) (hword : ∀ c ∈ word, p c = true) (hd : p d = false) :
    cur.take p = (word, cur.advance word.length) := by
  have htake : cur.rest.takeWhile p = word := by
    rw [hrest, List.takeWhile_append_of_pos hword, List.takeWhile_cons_of_neg (by simp [hd]),
      List.append_nil]
  rw [take, htake]

/-- Characters that cannot be a line feed are taken from the line alone. -/
theorem InLine.take_onto {p : Char → Bool} (hp : p '\n' = false) (h : cur.InLine) :
    (cur.onto z).take p = ((cur.take p).1, (cur.take p).2.onto z) ∧
      (cur.take p).2.InLine := by
  have hfeed : ∃ c ∈ cur.rest, p c = false := by
    obtain ⟨init, hrest⟩ := h
    exact ⟨'\n', by simp [hrest], hp⟩
  obtain ⟨word, d, tail, hrest, hword, hd⟩ := exists_cut hfeed
  have hmore : (cur.onto z).rest = word ++ d :: (tail ++ z) := by simp [hrest]
  have hle : word.length ≤ cur.rest.length := by simp [hrest]
  rw [take_of_cut hrest hword hd, take_of_cut hmore hword hd, onto_advance hle]
  refine ⟨rfl, h.advance fun c hc => ?_⟩
  rw [hrest, List.take_left' rfl] at hc
  rintro rfl
  have htrue := hword _ hc
  rw [hp] at htrue
  cases htrue

theorem InLine.skipWhile_onto {p : Char → Bool} (hp : p '\n' = false) (h : cur.InLine) :
    (cur.onto z).skipWhile p = (cur.skipWhile p).onto z ∧ (cur.skipWhile p).InLine := by
  obtain ⟨htake, hline⟩ := h.take_onto (z := z) hp
  exact ⟨congrArg Prod.snd htake, hline⟩

/-- At the start of `z`, nothing is taken from it. -/
theorem Lined.skipWhile_onto {p : Char → Bool} (hp : p '\n' = false)
    (hmore : ∀ c ∈ z.head?, p c = false) (h : cur.Lined) :
    (cur.onto z).skipWhile p = (cur.skipWhile p).onto z ∧ (cur.skipWhile p).Lined := by
  rcases h with hline | ⟨hrest, hcolumn⟩
  · obtain ⟨hskip, hline⟩ := hline.skipWhile_onto (z := z) hp
    exact ⟨hskip, .inl hline⟩
  · have hnone : z.takeWhile p = [] := by
      cases z with
      | nil => rfl
      | cons d z => rw [List.takeWhile_cons_of_neg (by simp [hmore d rfl])]
    refine ⟨?_, .inr ?_⟩
    · simp [skipWhile, take, hrest, hnone, onto, advance]
    · simp [skipWhile, take, hrest, hcolumn]

theorem length_skipWhile (cur : Cursor) (p : Char → Bool) :
    (cur.skipWhile p).rest.length ≤ cur.rest.length := by
  simp [skipWhile, take]

theorem column_skipWhile (cur : Cursor) (p : Char → Bool) :
    cur.column ≤ (cur.skipWhile p).column := by
  simp [skipWhile, take]

/-! ## Breaks and comments -/

/-- Where a line starts, what is left of a text is no line or lines that are ended. -/
theorem InLine.lined_of_suffix (h : cur.InLine) {next : Cursor} (hsuffix : next.rest <:+ cur.rest)
    (hcolumn : next.column = 0) : next.Lined := by
  obtain ⟨init, hrest⟩ := h
  rcases List.eq_nil_or_concat next.rest with hnil | ⟨first, last, hlast⟩
  · exact .inr ⟨hnil, hcolumn⟩
  · obtain ⟨before, hbefore⟩ := hsuffix
    rw [hlast, List.concat_eq_append, hrest, ← List.append_assoc,
      List.append_singleton_inj] at hbefore
    refine .inl ⟨first, ?_⟩
    rw [hlast, List.concat_eq_append, hbefore.2]

theorem InLine.readBreak_onto (h : cur.InLine) :
    (cur.onto z).readBreak = (cur.readBreak.1, cur.readBreak.2.onto z) := by
  obtain ⟨c, tail, hrest⟩ := h.exists_cons
  obtain ⟨rest, index, line, column⟩ := cur
  obtain rfl : rest = c :: tail := hrest
  by_cases hreturn : c = '\r'
  · subst hreturn
    obtain ⟨init, rfl⟩ := h.tail_ne_nil rfl (by decide)
    -- the next character tells whether the break is one or two long
    cases init with
    | nil => rfl
    | cons d init =>
      by_cases hfeed : d = '\n'
      · subst hfeed
        rfl
      · simp [readBreak, onto, hfeed]
  · simp only [readBreak, onto, List.cons_append]
    simp [hreturn]
    split
    · rfl
    · split <;> rfl

/-- A break is stepped over to the start of the next line. -/
theorem readBreak_of_break (hrest : cur.rest = c :: tail) (hc : isBreak c = true) :
    cur.readBreak.2.rest <:+ tail ∧ cur.readBreak.2.column = 0 := by
  obtain ⟨rest, index, line, column⟩ := cur
  obtain rfl : rest = c :: tail := hrest
  have hone : (c = '\r' ∨ c = '\n' ∨ c = '\x85') ∨ c = '\u2028' ∨ c = '\u2029' := by
    simpa [isBreak, or_assoc] using hc
  unfold readBreak
  split
  · rename_i heq
    cases heq
    exact ⟨List.suffix_cons _ _, rfl⟩
  · rename_i heq
    cases heq
    split
    · exact ⟨List.suffix_refl _, rfl⟩
    · split
      · exact ⟨List.suffix_refl _, rfl⟩
      · simp_all
  · rename_i heq
    cases heq

theorem length_readBreak (hrest : cur.rest = c :: tail) (hc : isBreak c = true) :
    cur.readBreak.2.rest.length < cur.rest.length := by
  have hle := (readBreak_of_break hrest hc).1.length_le
  rw [hrest, List.length_cons]
  omega

theorem InLine.lined_readBreak (h : cur.InLine) (hrest : cur.rest = c :: tail)
    (hc : isBreak c = true) : cur.readBreak.2.Lined := by
  obtain ⟨hsuffix, hcolumn⟩ := readBreak_of_break hrest hc
  refine h.lined_of_suffix (hsuffix.trans ?_) hcolumn
  rw [hrest]
  exact List.suffix_cons c tail

theorem isAt_onto (hne : cur.rest ≠ []) : (cur.onto z).isAt c = cur.isAt c := by
  obtain ⟨d, tail, hrest⟩ := List.exists_cons_of_ne_nil hne
  simp [isAt, hrest]

/-- A step over a character that was looked for stays in the line. -/
theorem InLine.advance_of_isAt (h : cur.InLine) (hat : cur.isAt c = true) (hc : c ≠ '\n') :
    (cur.onto z).advance 1 = (cur.advance 1).onto z ∧ (cur.advance 1).InLine := by
  obtain ⟨d, tail, hrest⟩ := h.exists_cons
  have hd : d = c := by simpa [isAt, hrest] using hat
  rw [← hd] at hc
  exact ⟨onto_advance_one hrest, h.advance_one hrest hc⟩

/-- The rest of a line is taken up to its break. -/
theorem InLine.exists_break (h : cur.InLine) :
    ∃ d tail, (cur.take (!isBreak ·)).2.rest = d :: tail ∧ isBreak d = true := by
  have hfeed : ∃ c ∈ cur.rest, (!isBreak c) = false := by
    obtain ⟨init, hrest⟩ := h
    exact ⟨'\n', by simp [hrest], rfl⟩
  obtain ⟨word, d, tail, hrest, hword, hd⟩ := exists_cut hfeed
  refine ⟨d, tail, ?_, by simpa using hd⟩
  rw [take_of_cut hrest hword hd, rest_advance, hrest, List.drop_left]

theorem length_skipComment (cur : Cursor) : cur.skipComment.rest.length ≤ cur.rest.length := by
  rw [skipComment]
  split
  · exact length_skipWhile _ _
  · exact Nat.le_refl _

theorem column_skipComment (cur : Cursor) : cur.column ≤ cur.skipComment.column := by
  rw [skipComment]
  split
  · exact column_skipWhile _ _
  · exact Nat.le_refl _

/-- A comment ends with its line. -/
theorem InLine.skipComment_onto (h : cur.InLine) :
    (cur.onto z).skipComment = cur.skipComment.onto z ∧ cur.skipComment.InLine := by
  obtain ⟨hskip, hinside⟩ := h.skipWhile_onto (z := z) (p := (!isBreak ·)) (by decide)
  unfold skipComment
  rw [isAt_onto h.ne_nil]
  split
  · exact ⟨hskip, hinside⟩
  · exact ⟨rfl, h⟩

theorem Lined.skipComment_onto (hmore : StartsToken z) (h : cur.Lined) :
    (cur.onto z).skipComment = cur.skipComment.onto z ∧ cur.skipComment.Lined := by
  rcases h with hline | ⟨hrest, hcolumn⟩
  · obtain ⟨hskip, hinside⟩ := hline.skipComment_onto (z := z)
    exact ⟨hskip, .inl hinside⟩
  · obtain ⟨c, tail, rfl, -, -, hc, -⟩ := hmore
    have hnone : cur.isAt '#' = false := by simp [isAt, hrest]
    have hother : (cur.onto (c :: tail)).isAt '#' = false := by simp [isAt, hrest, hc]
    rw [skipComment, skipComment, hnone, hother]
    exact ⟨rfl, .inr ⟨hrest, hcolumn⟩⟩

theorem InLine.atBreak_onto (h : cur.InLine) : atBreak (cur.rest ++ z) = atBreak cur.rest := by
  obtain ⟨c, tail, hrest⟩ := h.exists_cons
  rw [hrest]
  rfl

theorem InLine.atGap_onto (h : cur.InLine) : atGap (cur.rest ++ z) = atGap cur.rest := by
  obtain ⟨c, tail, hrest⟩ := h.exists_cons
  rw [hrest]
  rfl

theorem InLine.atDocumentMark_onto (h : cur.InLine) :
    atDocumentMark (cur.rest ++ z) = atDocumentMark cur.rest := by
  obtain ⟨init, hrest⟩ := h
  rw [hrest]
  -- a mark is three characters long, and something of its line follows
  match init with
  | [] => simp [atDocumentMark]
  | [a] => simp [atDocumentMark]
  | [a, b] => simp [atDocumentMark]
  | a :: b :: c :: init =>
    have hgap : atGap (init ++ '\n' :: z) = atGap (init ++ ['\n']) := by cases init <;> rfl
    simp only [List.cons_append, List.append_assoc, List.nil_append]
    by_cases hdash : a = '-' ∧ b = '-' ∧ c = '-'
    · obtain ⟨rfl, rfl, rfl⟩ := hdash
      exact hgap
    · by_cases hpoint : a = '.' ∧ b = '.' ∧ c = '.'
      · obtain ⟨rfl, rfl, rfl⟩ := hpoint
        exact hgap
      · simp_all [atDocumentMark]

/-- The end of a line is found in the line. -/
theorem InLine.finishLine?_onto (h : cur.InLine) {next : Cursor}
    (hnext : cur.finishLine? = some next) :
    (cur.onto z).finishLine? = some (next.onto z) ∧ next.Lined := by
  obtain ⟨hskip, hgap⟩ := h.skipWhile_onto (z := z) (p := isGap) (by decide)
  obtain ⟨hcomment, hline⟩ := hgap.skipComment_onto (z := z)
  rw [finishLine?] at hnext ⊢
  rw [hskip, hcomment, rest_onto, hline.atBreak_onto]
  obtain ⟨c, tail, hrest⟩ := hline.exists_cons
  split at hnext
  · rename_i hbreak
    have hc : isBreak c = true := by
      rw [hrest] at hbreak
      exact hbreak
    cases hnext
    refine ⟨?_, hline.lined_readBreak hrest hc⟩
    rw [if_pos hbreak, hline.readBreak_onto]
  · cases hnext

end Cursor

end CompilerRemarks.Yaml
