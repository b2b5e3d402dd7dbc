/-
  CompilerRemarks.Proofs.Remark.Editor

  A selection in an editor finds the remarks whose diagnostics it covers
  (`editor_finds_what_it_shows`).

  Two conversions meet here: the selection is counted up into the positions
  of a compiler, the remark is counted down into those of an editor. Both
  stop at the end of the numbers, and column `0` is shown where column `1`
  is. Each end of the selection is followed on its own (`first_le_iff`,
  `le_last_iff`).

  Line `0` has no such provision: it is shown on the first line, but counting
  up starts at line `1`. So a selection of the whole file, from the first
  position of an editor to the last, finds all remarks but those on line `0`
  (`whole_file_finds_numbered_lines`).
-/
import CompilerRemarks.Proofs.Remark.Grouping
import CompilerRemarks.Remark.Diagnostic
import CompilerRemarks.Remark.Document
import CompilerRemarks.Cli.Invocation

namespace CompilerRemarks

/-! ## Counting up and down -/

theorem toNat_maxWord : maxWord.toNat = 4294967295 := rfl

theorem toNat_wordSucc (n : UInt32) : (wordSucc n).toNat = min (n.toNat + 1) maxWord.toNat := by
  have hn := n.toNat_lt
  rw [wordSucc]
  split
  · rename_i hmax
    rw [beq_iff_eq.mp hmax, Nat.min_eq_right (Nat.le_succ _)]
  · rename_i hne
    have hlt : n.toNat ≠ maxWord.toNat := fun h => hne (beq_iff_eq.mpr (UInt32.toNat_inj.mp h))
    rw [toNat_maxWord] at hlt ⊢
    rw [UInt32.toNat_add, UInt32.toNat_one]
    omega

theorem toNat_wordPred (n : UInt32) : (wordPred n).toNat = n.toNat - 1 := by
  rw [wordPred]
  split
  · rename_i hzero
    rw [beq_iff_eq.mp hzero]
    rfl
  · rename_i hne
    have hpos : n.toNat ≠ 0 := fun h => hne (beq_iff_eq.mpr (UInt32.toNat_inj.mp h))
    have hone : (1 : UInt32) ≤ n := by
      rw [UInt32.le_iff_toNat_le, UInt32.toNat_one]
      omega
    rw [UInt32.toNat_sub_of_le n 1 hone, UInt32.toNat_one]

/-! ## Positions in an editor -/

/-- Where an editor shows what a compiler reports at a position. -/
def Position.shown (p : Position) : Position :=
  ⟨wordPred p.line, wordPred p.column⟩

/-- Where an editor shows a diagnostic. -/
def Diagnostic.position (d : Diagnostic) : Position :=
  ⟨d.line, d.column⟩

theorem Diagnostic.position_ofRemark (r : Remark) :
    (ofRemark r).position = r.location.position.shown :=
  rfl

namespace Range

variable {startLine startColumn endLine endColumn : UInt32} {p : Position}

/-- What lies behind the start of a selection is shown behind it. -/
theorem first_le_iff (hline : startLine < maxWord) (hcolumn : startColumn < maxWord)
    (hp : 1 ≤ p.line) :
    (ofEditor startLine startColumn endLine endColumn).first.key ≤ p.key ↔
      (⟨startLine, startColumn⟩ : Position).key ≤ p.shown.key := by
  rw [UInt32.lt_iff_toNat_lt, toNat_maxWord] at hline hcolumn
  rw [UInt32.le_iff_toNat_le, UInt32.toNat_one] at hp
  have hfirst : (if startColumn == 0 then 0 else wordSucc startColumn : UInt32).toNat =
      if startColumn.toNat = 0 then 0 else startColumn.toNat + 1 := by
    by_cases hzero : startColumn = 0
    · subst hzero
      rfl
    · have hne : startColumn.toNat ≠ 0 := fun h => hzero (UInt32.toNat_inj.mp h)
      rw [if_neg (by simpa using hzero), if_neg hne, toNat_wordSucc, toNat_maxWord]
      omega
  rw [← Position.le_iff_key, ← Position.le_iff_key, Position.le_iff, Position.le_iff]
  simp only [ofEditor, Position.shown, toNat_wordSucc, toNat_wordPred, toNat_maxWord, hfirst]
  -- from the first column on every column counts, column `0` included
  split <;> omega

/-- What lies before the end of a selection is shown before it. -/
theorem le_last_iff (hline : endLine < maxWord) (hp : 1 ≤ p.line) :
    p.key ≤ (ofEditor startLine startColumn endLine endColumn).last.key ↔
      p.shown.key ≤ (⟨endLine, endColumn⟩ : Position).key := by
  have hcolumn := p.column.toNat_lt
  rw [UInt32.lt_iff_toNat_lt, toNat_maxWord] at hline
  rw [UInt32.le_iff_toNat_le, UInt32.toNat_one] at hp
  rw [← Position.le_iff_key, ← Position.le_iff_key, Position.le_iff, Position.le_iff]
  simp only [ofEditor, Position.shown, toNat_wordSucc, toNat_wordPred, toNat_maxWord]
  omega

/-- A selection is inverted after the conversion just if it was before. -/
theorem ofEditor_inverted_iff (hstart : startLine < maxWord) (hcolumn : startColumn < maxWord)
    (hend : endLine < maxWord) :
    (ofEditor startLine startColumn endLine endColumn).last.key <
        (ofEditor startLine startColumn endLine endColumn).first.key ↔
      (⟨endLine, endColumn⟩ : Position).key < (⟨startLine, startColumn⟩ : Position).key := by
  -- the end lies behind the start just if it is shown there; only the last
  -- column of all is shown elsewhere, and no selection starts in it
  have hlast : 1 ≤ (ofEditor startLine startColumn endLine endColumn).last.line := by
    rw [UInt32.le_iff_toNat_le, ofEditor, toNat_wordSucc, toNat_maxWord, UInt32.toNat_one]
    omega
  rw [← not_le, ← not_le, not_iff_not, first_le_iff hstart hcolumn hlast]
  rw [UInt32.lt_iff_toNat_lt, toNat_maxWord] at hcolumn hend
  rw [← Position.le_iff_key, ← Position.le_iff_key, Position.le_iff, Position.le_iff]
  simp only [ofEditor, Position.shown, toNat_wordSucc, toNat_wordPred, toNat_maxWord]
  omega

end Range

/-! ## Selections -/

/-- A selection finds a remark on a line just if it covers the place where the
    diagnostic of that remark is shown, and a query of it fails just if the
    selection itself is inverted. -/
theorem editor_finds_what_it_shows {startLine startColumn endLine endColumn : UInt32}
    (hstart : startLine < maxWord) (hcolumn : startColumn < maxWord) (hend : endLine < maxWord) :
    (∀ r : Remark, 1 ≤ r.location.line →
      ((Range.ofEditor startLine startColumn endLine endColumn).contains
          r.location.position = true ↔
        (⟨startLine, startColumn⟩ : Position).key ≤ (Diagnostic.ofRemark r).position.key ∧
        (Diagnostic.ofRemark r).position.key ≤ (⟨endLine, endColumn⟩ : Position).key)) ∧
    ∀ remarks : List Remark,
      (∃ e, Remark.query remarks
          (Range.ofEditor startLine startColumn endLine endColumn) = .error e) ↔
        (⟨endLine, endColumn⟩ : Position).key < (⟨startLine, startColumn⟩ : Position).key := by
  constructor
  · intro r hr
    rw [Range.contains_iff, Range.first_le_iff hstart hcolumn hr, Range.le_last_iff hend hr,
      Diagnostic.position_ofRemark]
  · intro remarks
    rw [← Range.ofEditor_inverted_iff hstart hcolumn hend]
    constructor
    · rintro ⟨e, he⟩
      exact (Remark.query_eq_error_iff.mp he).1
    · intro hinverted
      exact ⟨_, Remark.query_of_inverted hinverted remarks⟩

/-- A remark without a column is shown in the first one, and a selection of
    that column alone finds it. -/
theorem editor_finds_remark_without_column :
    let r : Remark := ⟨"inline", .passed, "Inlined", "main", ⟨"a.c", 4, 0⟩, []⟩
    let selection := Range.ofEditor 3 0 3 0
    (3 : UInt32) < maxWord ∧ (0 : UInt32) < maxWord ∧ 1 ≤ r.location.line ∧
      (Diagnostic.ofRemark r).position = ⟨3, 0⟩ ∧
      selection.contains r.location.position = true ∧
      ¬ ∃ e, Remark.query [r] selection = .error e := by
  intro r selection
  have hline : (3 : UInt32) < maxWord := by decide
  have hcolumn : (0 : UInt32) < maxWord := by decide
  have hr : 1 ≤ r.location.line := by decide
  have hshown : (Diagnostic.ofRemark r).position = ⟨3, 0⟩ := by decide
  obtain ⟨hfinds, hfails⟩ := @editor_finds_what_it_shows 3 0 3 0 hline hcolumn hline
  refine ⟨hline, hcolumn, hr, hshown, (hfinds r hr).mpr ?_, fun herror => ?_⟩
  · rw [hshown]
    exact ⟨le_rfl, le_rfl⟩
  · exact lt_irrefl _ ((hfails [r]).mp herror)

/-! ## The whole file -/

/-- Every line and column of a file, as a command line asks for them that
    counts like an editor. -/
def Cli.Span.wholeFile : Cli.Span :=
  ⟨0, maxWord, none, none, true⟩

namespace Range

variable {p : Position}

/-- No selection holds line `0`, wherever it starts. -/
theorem line_ne_zero_of_contains {startLine startColumn endLine endColumn : UInt32}
    (h : (ofEditor startLine startColumn endLine endColumn).contains p = true) :
    p.line ≠ 0 := by
  intro hzero
  rw [contains, Bool.and_eq_true, Position.le_iff] at h
  have hfirst := h.1
  rw [hzero, ofEditor, toNat_wordSucc, toNat_maxWord, UInt32.toNat_zero] at hfirst
  omega

/-- The whole file holds every column of every line from line `1` on. -/
theorem contains_wholeFile :
    Cli.Span.wholeFile.range.contains p = true ↔ p.line ≠ 0 := by
  constructor
  · intro h
    exact line_ne_zero_of_contains h
  · intro hne
    have hpos : p.line.toNat ≠ 0 := fun h => hne (UInt32.toNat_inj.mp h)
    have hline := p.line.toNat_lt
    have hcolumn := p.column.toNat_lt
    -- the last line and the last column are counted up no further
    have hrange : Cli.Span.wholeFile.range = ⟨⟨1, 0⟩, ⟨maxWord, maxWord⟩⟩ := rfl
    rw [hrange, contains, Bool.and_eq_true, Position.le_iff, Position.le_iff]
    simp only [UInt32.toNat_one, UInt32.toNat_zero, toNat_maxWord]
    omega

theorem first_le_last_wholeFile :
    Cli.Span.wholeFile.range.first.key ≤ Cli.Span.wholeFile.range.last.key :=
  Position.le_iff_key.mp (by decide)

end Range

/-- A query of the whole file has an answer. It finds the remarks on every
    line but line `0`, and so all of them just if none lies there. What it
    does not find is shown on the first line of the file, where no other
    selection finds it either. -/
theorem whole_file_finds_numbered_lines (remarks : List Remark) :
    ∃ g, Remark.query remarks Cli.Span.wholeFile.range = .ok g ∧ g.SplitsByPass ∧
      g.all = remarks.filter (·.location.line ≠ 0) ∧
      (g.all = remarks ↔ ∀ r ∈ remarks, r.location.line ≠ 0) ∧
      ∀ r ∈ remarks, r ∉ g.all → (Diagnostic.ofRemark r).position.line = 0 ∧
        ∀ startLine startColumn endLine endColumn,
          (Range.ofEditor startLine startColumn endLine endColumn).contains
            r.location.position = false := by
  have hall : Remark.inRange remarks Cli.Span.wholeFile.range =
      remarks.filter (·.location.line ≠ 0) := by
    refine List.filter_congr fun r _ => ?_
    rw [Bool.eq_iff_iff, Range.contains_wholeFile, decide_eq_true_eq]
    rfl
  refine ⟨_, Remark.query_of_le Range.first_le_last_wholeFile remarks,
    Grouped.splitsByPass _, hall, ?_, ?_⟩
  · rw [hall, List.filter_eq_self]
    simp only [decide_eq_true_eq]
  · intro r hr hmissed
    have hzero : r.location.line = 0 := by
      by_contra hne
      rw [hall, List.mem_filter] at hmissed
      exact hmissed ⟨hr, decide_eq_true hne⟩
    constructor
    · rw [Diagnostic.position_ofRemark, Position.shown, Remark.Location.position, hzero]
      rfl
    · intro startLine startColumn endLine endColumn
      rw [Bool.eq_false_iff]
      intro hcontains
      exact Range.line_ne_zero_of_contains hcontains hzero

/-- A remark on line `0` is read and shown on the first line, and a command
    line that asks for the whole file does not find it. -/
theorem whole_file_misses_line_zero :
    let document := ["--- !Passed", "Pass: inline", "Name: Inlined",
      "DebugLoc: \x7b File: a.c, Line: 0, Column: 0 \x7d", "Function: main", "Args: []", "..."]
    let words := ["range", "a.c", "--zero-based", "--start-line", "0", "--end-line", "4294967295"]
    let r : Remark := ⟨"inline", .passed, "Inlined", "main", ⟨"a.c", 0, 0⟩, []⟩
    Remark.decode? document = some r ∧
      Cli.Invocation.parse words = .ok ⟨⟨none, none, none, none⟩,
        .range ⟨"a.c"⟩ Cli.Span.wholeFile none false⟩ ∧
      Cli.Span.wholeFile.range = Range.ofEditor 0 0 maxWord maxWord ∧
      (Diagnostic.ofRemark r).position = ⟨0, 0⟩ ∧
      Remark.query [r] Cli.Span.wholeFile.range = .ok Grouped.empty := by
  intro document words r
  refine ⟨?_, ?_, rfl, ?_, ?_⟩
  · refine (Remark.decode?_cons _ _).trans ?_
    decide +kernel
  · decide +kernel
  · decide
  · rfl

end CompilerRemarks
