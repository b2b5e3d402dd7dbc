/-
  CompilerRemarks.Proofs.Remark.FilePattern

  The file of a location line is what a pattern captures: the key, white space,
  and the file in single quotes with each quote doubled, in double quotes, or
  bare up to a comma or a brace (`filePattern`). The reader goes through the
  line once, without going back; it finds what the pattern captures at the first
  place where it matches (`extractFile?_eq_capturedFile?`), and it undoes each of
  the three ways to write a file (`extractFile?_undoes_quoting`).
-/
import CompilerRemarks.Proofs.Remark.LocationLine
import CompilerRemarks.Proofs.Text.Pattern

namespace CompilerRemarks.Remark

open Text (Pattern)

/-! ## The pattern -/

/-- What single quotes hold, piece by piece: any character but a quote, or two
    quotes. -/
def singlePiece : Pattern :=
  .either (.one (· != '\'')) (.literal ['\'', '\''])

/-- A text in quotes, which is kept under a number. -/
def quotedPattern (quote : Char) (number : Nat) (inside : Pattern) : Pattern :=
  .sequence (.literal [quote]) (.sequence (.group number inside) (.literal [quote]))

/-- A file in single quotes. -/
def singlePattern : Pattern :=
  quotedPattern '\'' 1 (.many singlePiece)

/-- A file in double quotes. -/
def doublePattern : Pattern :=
  quotedPattern '"' 2 (.many (.one (· != '"')))

/-- A file without quotes, with the white space around it. -/
def barePattern : Pattern :=
  .group 3 (.sequence (.one (!endsBare ·)) (.many (.one (!endsBare ·))))

/-- A file in any of the three forms. -/
def writtenPattern : Pattern :=
  .either singlePattern (.either doublePattern barePattern)

/-- A file behind its key. -/
def filePattern : Pattern :=
  .sequence (.literal fileKey) (.sequence (.many (.one Text.isBlank)) writtenPattern)

/-- The file that the groups of a match hold. -/
def fileOf (groups : List (Nat × List Char)) : List Char :=
  match groups.lookup 1, groups.lookup 2 with
  | some quoted, _ => undouble quoted
  | none, some quoted => quoted
  | none, none => Text.trim ((groups.lookup 3).getD [])

/-! ## Quoted files -/

theorem singlePiece_groupless : (Pattern.many singlePiece).IsGroupless :=
  ⟨trivial, trivial⟩

theorem ways_singlePiece_of_ne {c : Char} (h : c ≠ '\'') (s : List Char) :
    singlePiece.ways (c :: s) = [⟨[c], s, []⟩] := by
  have hpair : ¬ ['\'', '\''].isPrefixOf (c :: s) = true := by
    simp [Ne.symm h]
  have hone : (c != '\'') = true := bne_iff_ne.mpr h
  rw [singlePiece, Pattern.ways, Pattern.ways, Pattern.ways, if_pos hone, if_neg hpair]
  rfl

theorem ways_singlePiece_pair (s : List Char) :
    singlePiece.ways ('\'' :: '\'' :: s) = [⟨['\'', '\''], s, []⟩] := by
  simp [singlePiece, Pattern.ways]

/-- A quote alone is no piece. -/
theorem ways_singlePiece_quote {s : List Char} (h : s.head? ≠ some '\'') :
    singlePiece.ways ('\'' :: s) = [] := by
  cases s with
  | nil => rfl
  | cons c s =>
    have hc : c ≠ '\'' := fun hc => h (congrArg some hc)
    simp [singlePiece, Pattern.ways, Ne.symm hc]

/-- The reader of single quotes takes as many pieces as a quote may follow. If
    none follows them all, the last pair is taken apart: its first quote closes
    the text. -/
theorem singleQuoted?_eq (acc : List Char) (fallback : Option (List Char)) (s : List Char) :
    singleQuoted? acc fallback s =
      (((Pattern.many singlePiece).upTo? '\'' s).map (acc.reverse ++ ·)).or fallback := by
  induction acc, fallback, s using singleQuoted?.induct with
  | case1 acc fallback rest ih =>
    have hlt : rest.length < ('\'' :: '\'' :: rest).length := by simp only [List.length_cons]; omega
    have hstep := Pattern.ways_many_of_step (ways_singlePiece_pair rest) hlt
    -- the text may end before this pair, which is what the reader keeps
    rw [singleQuoted?, ih, Pattern.upTo?_step hstep, List.head?_cons, if_pos rfl]
    cases (Pattern.many singlePiece).upTo? '\'' rest <;> simp
  | case2 acc fallback rest hlone =>
    have hhead : rest.head? ≠ some '\'' := by
      intro h
      obtain ⟨more, hrest⟩ := List.head?_eq_some_iff.mp h
      exact hlone more hrest
    have hstuck := Pattern.ways_many_of_stuck (ways_singlePiece_quote hhead)
    rw [singleQuoted?, Pattern.upTo?_start hstuck, List.head?_cons, if_pos rfl]
    · simp
    · exact hlone
  | case3 acc fallback c rest hpair hc ih =>
    have hne : c ≠ '\'' := hc
    have hstep := Pattern.ways_many_of_step (ways_singlePiece_of_ne hne rest) (by simp)
    have hhead : ¬ (c :: rest).head? = some '\'' := by simpa using hne
    rw [singleQuoted?, ih, Pattern.upTo?_step hstep, if_neg hhead]
    · cases (Pattern.many singlePiece).upTo? '\'' rest <;> simp
    · exact hpair
    · exact hne
  | case4 acc fallback =>
    have hstuck : singlePiece.ways [] = [] := by simp [singlePiece, Pattern.ways]
    rw [singleQuoted?, Pattern.upTo?_start (Pattern.ways_many_of_stuck hstuck), List.head?_nil]
    simp

/-- Quotes hold what the pattern inside takes up to the closing one. -/
theorem captures?_quotedPattern {inside : Pattern} (h : inside.IsGroupless) (quote : Char)
    (number : Nat) (s : List Char) :
    (quotedPattern quote number inside).captures? (quote :: s) =
      (inside.upTo? quote s).map fun quoted => [(number, quoted)] := by
  have hopen := Pattern.captures?_literal_sequence [quote]
    (.sequence (.group number inside) (.literal [quote])) s
  rw [List.singleton_append] at hopen
  rw [quotedPattern, hopen, Pattern.captures?_group_literal h]

/-- Without the quote that opens it, a text is not quoted. -/
theorem captures?_quotedPattern_of_ne {quote c : Char} (h : c ≠ quote) (number : Nat)
    (inside : Pattern) (s : List Char) :
    (quotedPattern quote number inside).captures? (c :: s) = none := by
  apply Pattern.captures?_literal_sequence_eq_none
  rintro ⟨rest, hrest⟩
  exact h (List.head_eq_of_cons_eq hrest).symm

theorem captures?_singlePattern (s : List Char) :
    singlePattern.captures? ('\'' :: s) =
      (singleQuoted? [] none s).map fun quoted => [(1, quoted)] := by
  rw [singlePattern, captures?_quotedPattern singlePiece_groupless, singleQuoted?_eq,
    Option.or_none, Option.map_map]
  rfl

theorem captures?_doublePattern (s : List Char) :
    doublePattern.captures? ('"' :: s) =
      (doubleQuoted? s).map fun quoted => [(2, quoted)] := by
  have hgroupless : (Pattern.many (.one (· != '"'))).IsGroupless := trivial
  have hinside : (fun c : Char => decide (c ≠ '"')) = (· != '"') := by
    funext c
    rw [Bool.eq_iff_iff, decide_eq_true_iff, bne_iff_ne]
  rw [doublePattern, captures?_quotedPattern hgroupless, Pattern.upTo?_many_ne, doubleQuoted?,
    hinside]

/-! ## Bare files -/

theorem captures?_barePattern (c : Char) (s : List Char) : barePattern.captures? (c :: s) =
    if endsBare c then none else some [(3, (c :: s).takeWhile (!endsBare ·))] := by
  have hmany := Pattern.first?_many_one (!endsBare ·) s
  rw [barePattern, Pattern.captures?, Pattern.first?_group, Pattern.first?_sequence, Pattern.ways]
  cases hc : endsBare c with
  | true => rfl
  | false =>
    rw [Bool.not_false, if_pos rfl, List.findSome?_singleton, hmany, List.takeWhile_cons, hc]
    rfl

/-! ## The file behind the key -/

/-- The file at the start of a text, without blanks before it. -/
def written? (s : List Char) : Option (List Char) :=
  (writtenPattern.captures? s).map fileOf

theorem written?_nil : written? [] = none := by
  have hnone : writtenPattern.captures? [] = none := by decide +kernel
  rw [written?, hnone, Option.map_none]

theorem written?_single (s : List Char) : written? ('\'' :: s) =
    some (((singleQuoted? [] none s).map undouble).getD (bareFile ('\'' :: s))) := by
  have hdouble : doublePattern.captures? ('\'' :: s) = none :=
    captures?_quotedPattern_of_ne (by decide) _ _ s
  rw [written?, writtenPattern, Pattern.captures?_either, Pattern.captures?_either,
    captures?_singlePattern, hdouble, captures?_barePattern]
  cases singleQuoted? [] none s <;> rfl

theorem written?_double (s : List Char) : written? ('"' :: s) =
    some ((doubleQuoted? s).getD (bareFile ('"' :: s))) := by
  have hsingle : singlePattern.captures? ('"' :: s) = none :=
    captures?_quotedPattern_of_ne (by decide) _ _ s
  rw [written?, writtenPattern, Pattern.captures?_either, Pattern.captures?_either, hsingle,
    captures?_doublePattern, captures?_barePattern]
  cases doubleQuoted? s <;> rfl

theorem written?_bare {c : Char} (hsingle : c ≠ '\'') (hdouble : c ≠ '"') (s : List Char) :
    written? (c :: s) = if endsBare c then none else some (bareFile (c :: s)) := by
  have hnone : singlePattern.captures? (c :: s) = none :=
    captures?_quotedPattern_of_ne hsingle _ _ s
  have hnone' : doublePattern.captures? (c :: s) = none :=
    captures?_quotedPattern_of_ne hdouble _ _ s
  rw [written?, writtenPattern, Pattern.captures?_either, Pattern.captures?_either, hnone, hnone',
    captures?_barePattern, Option.none_or, Option.none_or]
  split <;> rfl

/-- Where no blanks stand before the file, the reader takes what is written. -/
theorem fileAfterKey?_eq_written? {s : List Char} (h : ∀ c ∈ s.head?, Text.isBlank c = false) :
    fileAfterKey? s = written? s := by
  rw [fileAfterKey?, Text.trimStart_of_head h]
  cases s with
  | nil => rw [written?_nil]; rfl
  | cons c s =>
    have hnoblanks : ¬ (c :: s).length < (c :: s).length := Nat.lt_irrefl _
    by_cases hsingle : c = '\''
    · subst hsingle
      rw [written?_single]
      rfl
    · by_cases hdouble : c = '"'
      · subst hdouble
        rw [written?_double]
        rfl
      · rw [written?_bare hsingle hdouble]
        simp [hsingle, hdouble]

/-- Blanks alone are no file. -/
theorem bareFile_blank {gap after : List Char} (hgap : ∀ c ∈ gap, Text.isBlank c = true)
    (hafter : ∀ c ∈ after.head?, endsBare c = true) : bareFile (gap ++ after) = [] := by
  have hinside : ∀ c ∈ gap, (!endsBare c) = true := by
    intro c hc
    rw [endsBare_of_blank (hgap c hc)]
    rfl
  have htake : (gap ++ after).takeWhile (!endsBare ·) = gap := by
    rw [List.takeWhile_append_of_pos hinside]
    cases after with
    | nil => simp
    | cons c after => simp [hafter c rfl]
  have hstart := Text.trimStart_append_of_blank hgap []
  rw [List.append_nil] at hstart
  rw [bareFile, htake, Text.trim, hstart]
  rfl

/-- One more blank before the file changes nothing, unless there is no file: then
    it makes one without a name. -/
theorem fileAfterKey?_cons_of_blank {c : Char} (hc : Text.isBlank c = true) (s : List Char) :
    fileAfterKey? (c :: s) = (fileAfterKey? s).or (some (bareFile (c :: s))) := by
  obtain ⟨gap, hgap, hs⟩ := Text.exists_gap_trimStart s
  have hgap' : ∀ d ∈ c :: gap, Text.isBlank d = true := by
    intro d hd
    rcases List.mem_cons.mp hd with rfl | hd
    · exact hc
    · exact hgap d hd
  have htrim : Text.trimStart (c :: s) = Text.trimStart s :=
    Text.trimStart_append_of_blank (fun d hd => List.mem_singleton.mp hd ▸ hc) s
  have hblanks : (Text.trimStart s).length < (c :: s).length :=
    Nat.lt_succ_of_le (List.dropWhile_suffix Text.isBlank).length_le
  have hnofile : (∀ d ∈ (Text.trimStart s).head?, endsBare d = true) → bareFile (c :: s) = [] := by
    intro h
    rw [hs, ← List.cons_append]
    exact bareFile_blank hgap' h
  rw [fileAfterKey?, fileAfterKey?, htrim]
  generalize hbody : Text.trimStart s = body at hblanks hnofile
  cases body with
  | nil =>
    rw [hnofile (by simp)]
    simp only [hblanks, if_true]
    split <;> rfl
  | cons d rest =>
    simp only [hblanks, if_true]
    by_cases hsingle : d = '\''
    · simp [hsingle]
    · by_cases hdouble : d = '"'
      · simp [hdouble]
      · cases hends : endsBare d with
        | false => simp [hsingle, hdouble]
        | true =>
          rw [hnofile (fun e he => by cases he; exact hends)]
          simp only [hsingle, hdouble, beq_iff_eq, if_false, if_true]
          split <;> rfl

/-- The reader behind the key takes what is written behind as many blanks as
    there are; only if nothing is written there, it takes the blanks. -/
theorem fileAfterKey?_eq (s : List Char) : fileAfterKey? s =
    ((Pattern.sequence (.many (.one Text.isBlank)) writtenPattern).captures? s).map fileOf := by
  induction s with
  | nil =>
    rw [Pattern.captures?_many_one_sequence_nil]
    exact fileAfterKey?_eq_written? (by simp)
  | cons c s ih =>
    rw [Pattern.captures?_many_one_sequence_cons]
    cases hc : Text.isBlank c with
    | false =>
      rw [if_neg Bool.false_ne_true]
      exact fileAfterKey?_eq_written? (fun d hd => by cases hd; exact hc)
    | true =>
      have hsingle : c ≠ '\'' := by
        rintro rfl
        exact absurd hc (by decide)
      have hdouble : c ≠ '"' := by
        rintro rfl
        exact absurd hc (by decide)
      -- white space may stand in a bare file
      have hbare : written? (c :: s) = some (bareFile (c :: s)) := by
        rw [written?_bare hsingle hdouble, endsBare_of_blank hc, if_neg Bool.false_ne_true]
      rw [if_pos rfl, Option.map_or, ← ih, ← written?, hbare, fileAfterKey?_cons_of_blank hc]

/-! ## The line -/

theorem findFile?_eq (s : List Char) :
    findFile? s = (filePattern.search? s).map fun m => fileOf m.groups := by
  induction s with
  | nil =>
    have hnone : filePattern.search? [] = none := by decide +kernel
    rw [hnone]
    rfl
  | cons c s ih =>
    have hfirst : (dropStart? fileKey (c :: s)).bind fileAfterKey? =
        (filePattern.first? (c :: s)).map fun m => fileOf m.groups := by
      cases hdrop : dropStart? fileKey (c :: s) with
      | some rest =>
        rw [eq_append_of_dropStart? hdrop, Option.bind_some, fileAfterKey?_eq, filePattern,
          ← Pattern.captures?_literal_sequence fileKey, Pattern.captures?, Option.map_map]
        rfl
      | none =>
        have hnokey : ¬ fileKey <+: c :: s := by
          rintro ⟨rest, hrest⟩
          rw [← hrest, dropStart?_append] at hdrop
          cases hdrop
        rw [filePattern, Pattern.first?_literal_sequence_eq_none hnokey]
        rfl
    rw [findFile?, hfirst, Pattern.search?, Option.map_or, ← ih]
    cases (filePattern.first? (c :: s)).map fun m => fileOf m.groups <;> rfl

/-- The file that the pattern captures where it matches first, if that is not
    empty. -/
def capturedFile? (line : String) : Option String :=
  (((filePattern.search? line.toList).map fun m => fileOf m.groups).filter (!·.isEmpty)).map
    String.ofList

/-- The reader goes through a line once and finds what the pattern captures. -/
theorem extractFile?_eq_capturedFile? : extractFile? = capturedFile? := by
  funext line
  rw [extractFile?, findFile?_eq, capturedFile?]

/-! ## Quoting undone -/

/-- Three ways to write a file: in single quotes, with those that it has doubled;
    in double quotes, if it has none; and as it is, if nothing in it could be
    taken for a quote or for its end. -/
inductive Spells (file : String) : String → Prop where
  | single : Spells file ("'" ++ String.ofList (doubled file.toList) ++ "'")
  | double (hfile : '"' ∉ file.toList) : Spells file ("\"" ++ file ++ "\"")
  | bare (hfirst : ∀ c ∈ file.toList.head?, Text.isBlank c = false ∧ c ≠ '\'' ∧ c ≠ '"')
      (hlast : ∀ c ∈ file.toList.getLast?, Text.isBlank c = false)
      (hfile : ',' ∉ file.toList ∧ '\x7d' ∉ file.toList) : Spells file file

/-- What comes after a file: a comma, or a brace behind a blank. -/
def EndsFile (after : String) : Prop :=
  [','] <+: after.toList ∨ [' ', '\x7d'] <+: after.toList

theorem EndsFile.head_ne {after : String} (h : EndsFile after) :
    after.toList.head? ≠ some '\'' := by
  rcases h with ⟨rest, hrest⟩ | ⟨rest, hrest⟩ <;> simp [← hrest]

theorem Spells.written {file text after : String} (h : Spells file text) (hafter : EndsFile after) :
    Written file.toList (text ++ after).toList := by
  cases h with
  | single =>
    have hwritten := @Written.single file.toList after.toList hafter.head_ne
    simpa using hwritten
  | double hfile =>
    have hwritten := Written.double after.toList hfile
    simpa using hwritten
  | bare hfirst hlast hfile =>
    have hinside : ∀ c ∈ file.toList, endsBare c = false := by
      intro c hc
      have hcomma : c ≠ ',' := fun h => hfile.1 (h ▸ hc)
      have hbrace : c ≠ '\x7d' := fun h => hfile.2 (h ▸ hc)
      simp [endsBare, hcomma, hbrace]
    rw [String.toList_append]
    rcases hafter with ⟨rest, hrest⟩ | ⟨rest, hrest⟩
    · have hwritten := Written.bare [] (',' :: rest) hfirst hlast hinside (by simp)
        (by intro c hc; cases hc; rfl)
      rw [← hrest]
      exact hwritten
    · have hwritten := Written.bare [' '] ('\x7d' :: rest) hfirst hlast hinside
        (by intro c hc; rw [List.mem_singleton.mp hc]; rfl) (by intro c hc; cases hc; rfl)
      rw [← hrest]
      exact hwritten

/-- Quotes with nothing in them are read as a file without a name. -/
theorem fileAfterKey?_emptyQuotes {gap after : List Char}
    (hgap : ∀ c ∈ gap, Text.isBlank c = true) (hafter : after.head? ≠ some '\'') :
    fileAfterKey? (gap ++ '\'' :: '\'' :: after) = some [] ∧
      fileAfterKey? (gap ++ '"' :: '"' :: after) = some [] := by
  have hsingle : singleQuoted? [] none ('\'' :: after) = some [] :=
    singleQuoted?_doubled [] after hafter [] none
  have hdouble : doubleQuoted? ('"' :: after) = some [] :=
    doubleQuoted?_append after List.not_mem_nil
  constructor
  · have htrim : Text.trimStart ('\'' :: '\'' :: after) = '\'' :: '\'' :: after :=
      Text.trimStart_of_head (by intro c hc; cases hc; decide)
    simp [fileAfterKey?, Text.trimStart_append_of_blank hgap, htrim, hsingle, undouble]
  · have htrim : Text.trimStart ('"' :: '"' :: after) = '"' :: '"' :: after :=
      Text.trimStart_of_head (by intro c hc; cases hc; decide)
    simp [fileAfterKey?, Text.trimStart_append_of_blank hgap, htrim, hdouble]

/-- What the pattern captures is found, and a file behind the first key of a line
    is read as it was before it was written; quotes with nothing in them are no
    file. -/
theorem extractFile?_undoes_quoting (before gap after : String)
    (hbefore : ¬ fileKey <:+: before.toList) (hgap : ∀ c ∈ gap.toList, Text.isBlank c = true)
    (hafter : EndsFile after) :
    extractFile? = capturedFile? ∧
    (∀ file written, Spells file written → file ≠ "" →
      extractFile? (before ++ "File:" ++ gap ++ written ++ after) = some file) ∧
    ∀ empty ∈ ["''", "\"\""],
      extractFile? (before ++ "File:" ++ gap ++ empty ++ after) = none := by
  have hline : ∀ text : String, (before ++ "File:" ++ gap ++ text ++ after).toList =
      before.toList ++ (fileKey ++ (gap.toList ++ (text ++ after).toList)) := by
    intro text
    simp [fileKey]
  refine ⟨extractFile?_eq_capturedFile?, ?_, ?_⟩
  · intro file written hspells hne
    have hcarries : Carries (before ++ "File:" ++ gap ++ written ++ after) file :=
      ⟨before.toList, gap.toList, (written ++ after).toList, hline written, hbefore, hgap,
        hspells.written hafter⟩
    exact extractFile?_of_carries hne hcarries
  · have hunnamed : ∀ text : String,
        fileAfterKey? (gap.toList ++ (text ++ after).toList) = some [] →
        extractFile? (before ++ "File:" ++ gap ++ text ++ after) = none := by
      intro text htext
      rw [extractFile?, hline, findFile?_append hbefore htext]
      rfl
    obtain ⟨hsingle, hdouble⟩ := fileAfterKey?_emptyQuotes hgap hafter.head_ne
    intro empty hempty
    rcases List.mem_pair.mp hempty with rfl | rfl
    · apply hunnamed
      simpa using hsingle
    · apply hunnamed
      simpa using hdouble

/-- A file with quotes at its end and a key in it, in single quotes. -/
theorem extractFile?_quoted :
    ¬ fileKey <:+: "DebugLoc: \x7b ".toList ∧ (∀ c ∈ " ".toList, Text.isBlank c = true) ∧
      EndsFile ", Line: 4 \x7d" ∧ Spells "File: 'a.c'" "'File: ''a.c'''" ∧
      extractFile? ("DebugLoc: \x7b " ++ "File:" ++ " " ++ "'File: ''a.c'''" ++
        ", Line: 4 \x7d") = some "File: 'a.c'" := by
  have hbefore : ¬ fileKey <:+: "DebugLoc: \x7b ".toList := by decide +kernel
  have hblank : " ".toList = [' '] := by decide
  have hgap : ∀ c ∈ " ".toList, Text.isBlank c = true := by
    intro c hc
    rw [hblank, List.mem_singleton] at hc
    rw [hc]
    rfl
  have hafter : EndsFile ", Line: 4 \x7d" := .inl (by decide +kernel)
  have hspells : Spells "File: 'a.c'" "'File: ''a.c'''" := .single
  have hline := (extractFile?_undoes_quoting "DebugLoc: \x7b " " " ", Line: 4 \x7d" hbefore hgap
    hafter).2.1 "File: 'a.c'" "'File: ''a.c'''" hspells (by decide)
  exact ⟨hbefore, hgap, hafter, hspells, hline⟩

end CompilerRemarks.Remark
