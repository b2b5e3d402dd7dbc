/-
  CompilerRemarks.Proofs.Remark.LocationLine

  Two readers look at a location line: the filter, which takes the file after
  the first `File:` of the line, and the decoder, which reads the whole body
  as YAML. What is a scalar under the key `File` of the line's mapping, and is
  written without escapes, the filter reads as YAML does (`GivesFile.carries`),
  and the decoder finds it as the file of the remark (`GivesFile.file_eq`), so
  the two agree. They part where the first `File:` of the line is no key with
  such a scalar, among others where the file has a line of its own.
-/
import CompilerRemarks.Proofs.Remark.Acceptance
import CompilerRemarks.Proofs.Remark.Documents
import CompilerRemarks.Proofs.Yaml.Field

namespace CompilerRemarks.Remark

open Yaml (Value)

/-! ## Ways to write a file -/

/-- A text with each of its single quotes doubled. -/
def doubled : List Char → List Char
  | [] => []
  | c :: rest => if c = '\'' then '\'' :: '\'' :: doubled rest else c :: doubled rest

/-- What may stand after the key of a location line and its blanks for a file:
    the file in single quotes, in double quotes, or bare. -/
inductive Written (file : List Char) : List Char → Prop where
  | single (after : List Char) (hafter : after.head? ≠ some '\'') :
      Written file ('\'' :: (doubled file ++ '\'' :: after))
  | double (after : List Char) (hfile : '"' ∉ file) :
      Written file ('"' :: (file ++ '"' :: after))
  | bare (gap after : List Char)
      (hfirst : ∀ c ∈ file.head?, Text.isBlank c = false ∧ c ≠ '\'' ∧ c ≠ '"')
      (hlast : ∀ c ∈ file.getLast?, Text.isBlank c = false)
      (hfile : ∀ c ∈ file, endsBare c = false)
      (hgap : ∀ c ∈ gap, Text.isBlank c = true)
      (hafter : ∀ c ∈ after.head?, endsBare c = true) :
      Written file (file ++ (gap ++ after))

/-- A line carries a file if the file is written after the first key. -/
def Carries (line file : String) : Prop :=
  ∃ before gap text, line.toList = before ++ (fileKey ++ (gap ++ text)) ∧
    ¬ fileKey <:+: before ∧ (∀ c ∈ gap, Text.isBlank c = true) ∧ Written file.toList text

/-! ## Quoted files -/

theorem undouble_cons_of_ne {c : Char} (h : c ≠ '\'') (rest : List Char) :
    undouble (c :: rest) = c :: undouble rest := by
  rw [undouble]
  rintro x rfl
  exact absurd rfl h

theorem undouble_doubled (s : List Char) : undouble (doubled s) = s := by
  induction s with
  | nil => rfl
  | cons c rest ih =>
    by_cases h : c = '\''
    · subst h
      rw [doubled, if_pos rfl, undouble, ih]
    · rw [doubled, if_neg h, undouble_cons_of_ne h, ih]

/-- The closing quote is the first that is not doubled. -/
theorem singleQuoted?_doubled (file after : List Char) (hafter : after.head? ≠ some '\'') :
    ∀ (acc : List Char) (fallback : Option (List Char)),
      singleQuoted? acc fallback (doubled file ++ '\'' :: after) =
        some (acc.reverse ++ doubled file) := by
  induction file with
  | nil =>
    intro acc fallback
    -- the quote here is the closing one, because no other follows it
    cases after with
    | nil => simp [doubled, singleQuoted?]
    | cons d after =>
      have hd : d ≠ '\'' := fun h => hafter (by rw [h]; rfl)
      simp [doubled, singleQuoted?, hd]
  | cons c rest ih =>
    intro acc fallback
    by_cases h : c = '\''
    · subst h
      simp [doubled, singleQuoted?, ih]
    · simp [doubled, singleQuoted?, h, ih]

theorem doubleQuoted?_append {file : List Char} (after : List Char) (h : '"' ∉ file) :
    doubleQuoted? (file ++ '"' :: after) = some file := by
  have hmem : (file ++ '"' :: after).contains '"' = true := by simp
  have htake : (file ++ '"' :: after).takeWhile (· ≠ '"') = file := by
    rw [List.takeWhile_append_of_pos]
    · simp
    · intro c hc
      have hne : c ≠ '"' := fun heq => h (heq ▸ hc)
      simp [hne]
  rw [doubleQuoted?, hmem, if_pos rfl, htake]

/-! ## Bare files -/

/-- A blank ends no bare file. -/
theorem endsBare_of_blank {c : Char} (h : Text.isBlank c = true) : endsBare c = false := by
  have hcomma : c ≠ ',' := by
    rintro rfl
    exact absurd h (by decide)
  have hbrace : c ≠ '\x7d' := by
    rintro rfl
    exact absurd h (by decide)
  simp [endsBare, hcomma, hbrace]

theorem bareFile_append {file gap after : List Char} (hne : file ≠ [])
    (hfirst : ∀ c ∈ file.head?, Text.isBlank c = false)
    (hlast : ∀ c ∈ file.getLast?, Text.isBlank c = false)
    (hfile : ∀ c ∈ file, endsBare c = false) (hgap : ∀ c ∈ gap, Text.isBlank c = true)
    (hafter : ∀ c ∈ after.head?, endsBare c = true) :
    bareFile (file ++ (gap ++ after)) = file := by
  have htake : (file ++ (gap ++ after)).takeWhile (!endsBare ·) = file ++ gap := by
    have hinside : ∀ c ∈ file ++ gap, (!endsBare c) = true := by
      intro c hc
      rcases List.mem_append.mp hc with hc | hc
      · rw [hfile c hc]; rfl
      · rw [endsBare_of_blank (hgap c hc)]; rfl
    -- the reader stops behind the blanks, which are trimmed below
    rw [← List.append_assoc, List.takeWhile_append_of_pos hinside]
    cases after with
    | nil => simp
    | cons d after =>
      have hd : endsBare d = true := hafter d rfl
      simp [hd]
  have hhead : ∀ c ∈ (file ++ gap).head?, Text.isBlank c = false := by
    obtain ⟨c, rest, rfl⟩ := List.exists_cons_of_ne_nil hne
    exact hfirst
  rw [bareFile, htake, Text.trim, Text.trimStart_of_head hhead, Text.trimEnd_append_of_blank _ hgap,
    Text.trimEnd_of_getLast hlast]

/-! ## The file of a line -/

theorem fileAfterKey?_written {file gap text : List Char} (hne : file ≠ [])
    (hgap : ∀ c ∈ gap, Text.isBlank c = true) (h : Written file text) :
    fileAfterKey? (gap ++ text) = some file := by
  rw [fileAfterKey?, Text.trimStart_append_of_blank hgap]
  cases h with
  | single after hafter =>
    have htrim : Text.trimStart ('\'' :: (doubled file ++ '\'' :: after)) =
        '\'' :: (doubled file ++ '\'' :: after) :=
      Text.trimStart_of_head (by intro c hc; cases hc; decide)
    simp [htrim, singleQuoted?_doubled file after hafter, undouble_doubled]
  | double after hfile =>
    have htrim : Text.trimStart ('"' :: (file ++ '"' :: after)) = '"' :: (file ++ '"' :: after) :=
      Text.trimStart_of_head (by intro c hc; cases hc; decide)
    simp [htrim, doubleQuoted?_append after hfile]
  | bare gap' after hfirst hlast hfile hgap' hafter =>
    have hbare : bareFile (file ++ (gap' ++ after)) = file :=
      bareFile_append hne (fun c hc => (hfirst c hc).1) hlast hfile hgap' hafter
    -- the first letter sends the reader to the bare file
    obtain ⟨c, rest, rfl⟩ := List.exists_cons_of_ne_nil hne
    obtain ⟨hblank, hsingle, hdouble⟩ := hfirst c rfl
    have hends : endsBare c = false := hfile c List.mem_cons_self
    have htrim : Text.trimStart (c :: (rest ++ (gap' ++ after))) = c :: (rest ++ (gap' ++ after)) :=
      Text.trimStart_of_head (by intro d hd; cases hd; exact hblank)
    rw [List.cons_append] at hbare ⊢
    simp [htrim, hsingle, hdouble, hends, hbare]

/-- The key begins with a letter that it has nowhere else, so no key ends
    inside another one. -/
theorem fileKey_isPrefix_of_append {before rest : List Char} (hne : before ≠ [])
    (h : fileKey <+: before ++ (fileKey ++ rest)) : fileKey <+: before := by
  have hkey : fileKey = ['F', 'i', 'l', 'e', ':'] := by decide
  rw [hkey] at h ⊢
  match before, hne with
  -- the second `F` would have to stand inside the first key
  | [a], _ => simp at h
  | [a, b], _ => simp at h
  | [a, b, c], _ => simp at h
  | [a, b, c, d], _ => simp at h
  | a :: b :: c :: d :: e :: more, _ => simpa using h

theorem findFile?_append {before rest file : List Char} (hbefore : ¬ fileKey <:+: before)
    (hrest : fileAfterKey? rest = some file) :
    findFile? (before ++ (fileKey ++ rest)) = some file := by
  induction before with
  | nil =>
    have hdrop : dropStart? fileKey (fileKey ++ rest) = some rest := dropStart?_append fileKey rest
    have hcons : fileKey ++ rest = 'F' :: (['i', 'l', 'e', ':'] ++ rest) := rfl
    rw [List.nil_append]
    rw [hcons] at hdrop ⊢
    rw [findFile?, hdrop, Option.bind_some, hrest]
  | cons c before ih =>
    -- a key at this place would lie in `before` as a whole
    have hnone : dropStart? fileKey (c :: before ++ (fileKey ++ rest)) = none := by
      cases hdrop : dropStart? fileKey (c :: before ++ (fileKey ++ rest)) with
      | none => rfl
      | some tail =>
        have hpre : fileKey <+: c :: before ++ (fileKey ++ rest) :=
          ⟨tail, (eq_append_of_dropStart? hdrop).symm⟩
        exact absurd (fileKey_isPrefix_of_append (List.cons_ne_nil c before) hpre).isInfix hbefore
    have hinner : ¬ fileKey <:+: before :=
      fun h => hbefore (h.trans (List.suffix_cons c before).isInfix)
    rw [List.cons_append] at hnone ⊢
    rw [findFile?, hnone, Option.bind_none]
    exact ih hinner

/-- The filter reads the file that a line carries. -/
theorem extractFile?_of_carries {line file : String} (hne : file ≠ "") (h : Carries line file) :
    extractFile? line = some file := by
  obtain ⟨before, gap, text, hline, hbefore, hgap, hwritten⟩ := h
  have hchars : file.toList ≠ [] := fun h => hne (String.toList_eq_nil_iff.mp h)
  have hafter := fileAfterKey?_written hchars hgap hwritten
  have hkeep : (!file.toList.isEmpty) = true := by
    rw [List.isEmpty_eq_false_iff.mpr hchars]
    rfl
  rw [extractFile?, hline, findFile?_append hbefore hafter, Option.filter_some, if_pos hkeep,
    Option.map_some, String.ofList_toList]

/-- Without the key on a line, no file is read off it. -/
theorem extractFile?_of_no_key {line : String} (h : ¬ fileKey <:+: line.toList) :
    extractFile? line = none := by
  have hnone : findFile? line.toList = none := by
    generalize line.toList = s at h
    induction s with
    | nil => rfl
    | cons c s ih =>
      have hdrop : dropStart? fileKey (c :: s) = none := by
        rw [Option.eq_none_iff_forall_ne_some]
        intro rest hrest
        exact h ⟨[], rest, (eq_append_of_dropStart? hrest).symm⟩
      rw [findFile?, hdrop, Option.bind_none]
      exact ih fun hs => h (hs.trans (List.suffix_cons c s).isInfix)
  rw [extractFile?, hnone, Option.filter_none, Option.map_none]

/-! ## Lines with a file for both readers -/

/-- A file that stands for itself as a plain scalar: it has no blanks at its
    ends, and its value has the same text. -/
def IsPlainFile (file : String) : Prop :=
  (∀ c, c ∈ file.toList.head? ∨ c ∈ file.toList.getLast? → Text.isBlank c = false) ∧
    ∃ v, Yaml.Scalar.plain? file.toList = some v ∧ IsScalar v file

/-- A location line with a flow mapping whose key `File` is the first on the line
    and has the file for its value: in quotes without escapes, or plain. -/
inductive GivesFile (file line : String) : Prop where
  | mk {plain : Bool} {before behind : List Char}
      (hfield : Yaml.FieldAt locationKey.toList "File".toList file.toList plain line.toList behind)
      (hline : line.toList = before ++ (fileKey ++ behind)) (hbefore : ¬ fileKey <:+: before)
      (hplain : plain = true → IsPlainFile file)

theorem doubled_eq_flatMap (s : List Char) : doubled s = s.flatMap (Yaml.inQuotes true) := by
  induction s with
  | nil => rfl
  | cons c rest ih =>
    rw [doubled, List.flatMap_cons, ih, Yaml.inQuotes]
    by_cases h : c = '\''
    · simp [h]
    · simp [h]

theorem isBlank_of_gap {c : Char} (h : Yaml.isGap c = true) : Text.isBlank c = true := by
  simp only [Yaml.isGap, Bool.or_eq_true, beq_iff_eq] at h
  rcases h with rfl | rfl <;> decide

theorem endsBare_of_plain {file : List Char} (h : Yaml.isPlain file = true) :
    ∀ c ∈ file, endsBare c = false := by
  induction file with
  | nil => simp
  | cons c file ih =>
    obtain ⟨-, hmark, -, -, hfile⟩ := Yaml.isPlain_cons h
    refine List.forall_mem_cons.mpr ⟨?_, ih hfile⟩
    simp only [Yaml.isFlowMark, Bool.or_eq_false_iff] at hmark
    simp [endsBare, hmark]

/-- A scalar of a flow mapping is a file that the filter reads. -/
theorem written_of_scalarAt {file : String} {plain : Bool} {x z : List Char}
    (h : Yaml.ScalarAt file.toList plain x z) (hplain : plain = true → IsPlainFile file) :
    Written file.toList x := by
  cases h with
  | @quoted single _ _ hvalue hafter =>
    cases single with
    | true =>
      rw [← doubled_eq_flatMap]
      exact .single z (hafter rfl)
    | false =>
      rw [Yaml.flatMap_inQuotes (by simp)]
      exact .double z fun hquote => ((hvalue _ hquote).2 rfl).1 rfl
  | @plain _ gap z c hstarts hne htext hlast hgap hc =>
    obtain ⟨hends, -⟩ := hplain rfl
    refine .bare gap (c :: z) (fun d hd => ?_) (fun d hd => hends d (.inr hd))
      (endsBare_of_plain htext) (fun d hd => isBlank_of_gap (hgap d hd)) ?_
    · obtain ⟨rest, hrest⟩ := List.head?_eq_some_iff.mp hd
      rw [hrest] at hstarts
      obtain ⟨-, -, -, hquotes⟩ := Yaml.Scanner.first_of_startsPlain hstarts
      exact ⟨hends d (.inl hd), hquotes⟩
    · rintro d ⟨rfl⟩
      rcases hc with rfl | rfl <;> decide

theorem GivesFile.carries {file line : String} (h : GivesFile file line) : Carries line file := by
  obtain ⟨hfield, hline, hbefore, hplain⟩ := h
  obtain ⟨gap, x, z, rfl, hgap, hvalue⟩ := hfield.scalarAt
  exact ⟨_, _, _, hline, hbefore, fun c hc => isBlank_of_gap (hgap c hc),
    written_of_scalarAt hvalue hplain⟩

/-! ## The body of a document -/

/-- Lines with their line feeds. -/
def ended (lines : List String) : List Char :=
  lines.flatMap fun line => line.toList ++ ['\n']

/-- A document in which no lines stand between the first and a given one, or
    lines that are by themselves a mapping. -/
inductive HasField : List String → String → Prop where
  | mk {first line : String} {before after : List String}
      (hbefore : before = [] ∨ ((Value.ofText? (ended before)).bind Value.mapping?).isSome) :
      HasField (first :: (before ++ line :: after)) line

theorem leads_ended {lines : List String}
    (h : lines = [] ∨ ((Value.ofText? (ended lines)).bind Value.mapping?).isSome) :
    Yaml.Leads (ended lines) := by
  rcases h with rfl | h
  · exact .none
  · obtain ⟨entries, hmapping⟩ := Option.isSome_iff_exists.mp h
    obtain ⟨v, hv, hentries⟩ := Option.bind_eq_some_iff.mp hmapping
    rcases List.eq_nil_or_concat lines with rfl | ⟨init, last, rfl⟩
    · exact .none
    · have hlast : ended (init ++ [last]) = (ended init ++ last.toList) ++ ['\n'] := by
        simp [ended]
      rw [List.concat_eq_append, hlast] at hv ⊢
      exact Yaml.leads_of_mapping hv (by simp [hentries])

/-- Lines in front of a text are ended in it. -/
theorem toList_intercalate_append (before : List String) {lines : List String} (h : lines ≠ []) :
    ("\n".intercalate (before ++ lines)).toList =
      ended before ++ ("\n".intercalate lines).toList := by
  induction before with
  | nil => rfl
  | cons line before ih =>
    have hne : (before ++ lines).map String.toList ≠ [] := by simp [h]
    rw [String.toList_intercalate] at ih
    rw [List.cons_append, String.toList_intercalate, List.map_cons,
      List.intercalate_cons_of_ne_nil hne, ih]
    simp [ended]

/-- The body of a document around one of its lines. -/
theorem bodyText_of_mem {first line : String} {before after : List String}
    (hdoc : IsDocument (first :: (before ++ line :: after))) (hline : line ≠ terminator) :
    ∃ more, bodyText (before ++ line :: after) = ended before ++ (line.toList ++ more) ∧
      more.head? ≠ some '\'' := by
  obtain ⟨body, -, hbody⟩ := hdoc
  -- the end line is among those after the line
  obtain ⟨after, rfl⟩ : ∃ init, after = init ++ [terminator] := by
    rcases List.eq_nil_or_concat after with rfl | ⟨init, last, rfl⟩
    · rw [← List.cons_append] at hbody
      exact absurd (List.append_singleton_inj.mp hbody).2 hline
    · rw [List.concat_eq_append, ← List.cons_append, ← List.cons_append,
        ← List.append_assoc] at hbody
      exact ⟨init, by rw [List.concat_eq_append, (List.append_singleton_inj.mp hbody).2]⟩
  have hlines : bodyLines (before ++ line :: (after ++ [terminator])) =
      before ++ line :: after := by
    refine bodyLines_eq_iff.mpr ?_
    rw [← List.cons_append, ← List.append_assoc]
    exact .ended ⟨[], by simp, by simp⟩
  rw [bodyText, hlines, toList_intercalate_append before (List.cons_ne_nil line after)]
  cases after with
  | nil => exact ⟨[], by simp, by simp⟩
  | cons next after =>
    refine ⟨'\n' :: ("\n".intercalate (next :: after)).toList, ?_, by simp⟩
    have hne : (next :: after).map String.toList ≠ [] := by simp
    rw [String.toList_intercalate, List.map_cons, List.intercalate_cons_of_ne_nil hne,
      String.toList_intercalate]
    simp

/-! ## Both readers on one document -/

theorem exists_of_decode? {first : String} {rest : List String} {r : Remark}
    (h : decode? (first :: rest) = some r) :
    ∃ v, Value.ofText? (bodyText rest) = some v ∧ Describes v r := by
  obtain ⟨first', rest', body, v, heq, -, hbody, hv, hdescribes⟩ := (decode?_accepts_iff _ _).mp h
  obtain ⟨rfl, rfl⟩ := List.cons.inj heq
  rw [← bodyLines_eq_iff] at hbody
  exact ⟨v, by rw [bodyText, hbody, hv], hdescribes⟩

/-- A remark that was decoded has a file. -/
theorem file_ne_of_decode? {lines : List String} {r : Remark} (h : decode? lines = some r) :
    r.location.file ≠ "" := by
  cases lines with
  | nil => cases h
  | cons first rest =>
    obtain ⟨v, -, hdescribes⟩ := exists_of_decode? h
    cases hdescribes with
    | mk _ _ hplace =>
      cases hplace with
      | mk _ _ _ hne => exact hne

/-- The file of a remark is the text under the key in its place. -/
theorem Describes.file_eq {v w : Value} {r : Remark} {entries places : List (Value × Value)}
    {file : String} (h : Describes v r) (hentries : v.mapping? = some entries)
    (hplaces : Value.lookup? entries locationKey = some (.mapping places))
    (hw : Value.lookup? places "File" = some w) (hfile : IsScalar w file) :
    r.location.file = file := by
  cases h with
  | mk hv hlocation hplace =>
    rw [mapping?_eq_some_iff.mpr hv] at hentries
    obtain rfl := Option.some.inj hentries
    rw [lookup?_eq_some_iff.mpr hlocation] at hplaces
    obtain rfl := Option.some.inj hplaces
    cases hplace with
    | mk hv' hentry htext =>
      cases hv'
      rw [lookup?_eq_some_iff.mpr hentry] at hw
      obtain rfl := Option.some.inj hw
      rw [← scalarText?_eq_some_iff] at htext hfile
      exact Option.some.inj (htext.symm.trans hfile)

theorem isScalar_of_value {file : String} {plain : Bool} {w : Value}
    (hplain : plain = true → IsPlainFile file)
    (h : Yaml.scalarValue none file.toList plain = some w) : IsScalar w file := by
  cases plain with
  | false =>
    have hw : some (Value.string (String.ofList file.toList)) = some w := h
    rw [String.ofList_toList] at hw
    exact Option.some.inj hw ▸ .string file
  | true =>
    obtain ⟨-, v, hv, hfile⟩ := hplain rfl
    have hw : Yaml.Scalar.plain? file.toList = some w := h
    rw [hv] at hw
    exact Option.some.inj hw ▸ hfile

/-- The decoder finds the file that its location line gives. -/
theorem GivesFile.file_eq {doc : List String} {file line : String} {r : Remark}
    (h : GivesFile file line) (hdoc : IsDocument doc) (hloc : isLocationLine line = true)
    (hfield : HasField doc line) (hr : decode? doc = some r) : r.location.file = file := by
  obtain ⟨hbefore⟩ := hfield
  obtain ⟨hgiven, -, -, hplain⟩ := h
  obtain ⟨v, hv, hdescribes⟩ := exists_of_decode? hr
  have hline : line ≠ terminator := by
    rintro rfl
    rw [terminator_not_location] at hloc
    cases hloc
  obtain ⟨more, htext, hmore⟩ := bodyText_of_mem hdoc hline
  rw [htext] at hv
  obtain ⟨entries, hentries⟩ : ∃ entries, v.mapping? = some entries := by
    cases hdescribes with
    | mk hv => exact ⟨_, mapping?_eq_some_iff.mpr hv⟩
  have hname : Yaml.Scalar.plain? locationKey.toList = some (.string locationKey) :=
    Yaml.Scalar.plain?_of_text (by decide) (by decide) (by decide) (by decide) (by decide +kernel)
  have hkey : Yaml.Scalar.plain? "File".toList = some (.string "File") :=
    Yaml.Scalar.plain?_of_text (by decide) (by decide) (by decide) (by decide) (by decide +kernel)
  obtain ⟨places, w, hplaces, hw, hscalar⟩ := Yaml.Value.lookup?_of_line (leads_ended hbefore)
    (hgiven.append hmore) (by decide) hname (by decide) (by decide) hkey hv hentries
  exact hdescribes.file_eq hentries hplaces hw (isScalar_of_value hplain hscalar)

/-- A document with one location line is about the file that the line names. -/
theorem isAbout_iff_namesFile {relevant : Path} {doc : List String} {loc : String}
    (hloc : doc.filter isLocationLine = [loc]) :
    IsAbout relevant doc ↔ namesFile relevant loc = true := by
  have hmem : ∀ line, line ∈ doc ∧ isLocationLine line = true ↔ line = loc := by
    intro line
    rw [← List.mem_filter, hloc, List.mem_singleton]
  obtain ⟨hin, hisloc⟩ := (hmem loc).mpr rfl
  rw [IsAbout, namesFile_eq_any]
  constructor
  · rintro ⟨-, hall⟩
    exact hall loc hin hisloc
  · intro hnames
    refine ⟨⟨loc, hin, hisloc⟩, ?_⟩
    intro line hline hlocation
    rw [(hmem line).mp ⟨hline, hlocation⟩]
    exact hnames

theorem filterLines_of_location (relevant : Path) {doc : List String} {loc : String} {r : Remark}
    (hdoc : IsDocument doc) (hloc : doc.filter isLocationLine = [loc])
    (hr : decode? doc = some r) :
    filterLines relevant doc = if namesFile relevant loc then [r] else [] := by
  rw [filterLines_of_isDocument relevant hdoc]
  by_cases hnames : namesFile relevant loc = true
  · rw [surfaced?_of_isAbout ((isAbout_iff_namesFile hloc).mpr hnames), hr, if_pos hnames]
    rfl
  · rw [surfaced?_eq_none (fun h => hnames ((isAbout_iff_namesFile hloc).mp h)), if_neg hnames]
    rfl

/-- A document whose location line gives a file, in the mapping of the body, is a
    remark of that file, and it is kept just when the file is the relevant one.
    One whose location line is without the key is dropped. -/
theorem filterLines_follows_decoder (relevant : Path) {doc : List String} {line : String}
    {r : Remark} (hdoc : IsDocument doc) (hloc : doc.filter isLocationLine = [line])
    (hr : decode? doc = some r) :
    (∀ file, GivesFile file line → HasField doc line → r.location.file = file ∧
      filterLines relevant doc = if sameFile ⟨r.location.file⟩ relevant then [r] else []) ∧
    (¬ fileKey <:+: line.toList → filterLines relevant doc = []) := by
  have hline : line ∈ doc.filter isLocationLine := by rw [hloc]; exact List.mem_singleton_self line
  rw [filterLines_of_location relevant hdoc hloc hr, namesFile_eq_any]
  constructor
  · intro file hgives hfield
    have hfile := hgives.file_eq hdoc (List.mem_filter.mp hline).2 hfield hr
    have hne := file_ne_of_decode? hr
    rw [hfile] at hne ⊢
    rw [extractFile?_of_carries hne hgives.carries, Option.any_some]
    exact ⟨rfl, rfl⟩
  · intro hnone
    rw [extractFile?_of_no_key hnone, Option.any_none, if_neg Bool.false_ne_true]

/-- A location line with a quoted file that has a quote in it. -/
def quotedLine : String :=
  "DebugLoc: \x7b Line: 4, File: '/src/it''s.c', Column: 3 \x7d"

def quotedDocument : List String :=
  ["--- !Passed", "Pass: inline", "Name: Inlined", quotedLine, "Function: main", "Args: []", "..."]

def quotedRemark : Remark :=
  ⟨"inline", .passed, "Inlined", "main", ⟨"/src/it's.c", 4, 3⟩, []⟩

theorem givesFile_quotedLine : GivesFile "/src/it's.c" quotedLine := by
  have hblank : ∀ c ∈ [' '], Yaml.isGap c = true := fun c hc => by rw [List.mem_singleton.mp hc]; rfl
  have hbreak : ("/src/it's.c".toList.all (!Yaml.isBreak ·)) = true := by decide +kernel
  have hvalue := @Yaml.ScalarAt.quoted true "/src/it's.c".toList ", Column: 3 \x7d".toList
    (fun c hc => ⟨by simpa using List.all_eq_true.mp hbreak c hc, by simp⟩) (by decide +kernel)
  have hnumber := fun z => @Yaml.ScalarAt.plain ['4'] [] z ',' rfl (by simp) rfl
    (by simp [Yaml.isGap]) (by simp) (.inl rfl)
  have hentries := fun z => @Yaml.EntriesAt.cons [' '] "Line".toList [' '] ['4'] _ [] z z true
    [] hblank (by decide) (by decide) hblank (by simp) (hnumber z) (by simp) (.nil z)
  have hfield := @Yaml.FieldAt.mk locationKey.toList "File".toList _ false [' '] [' '] [' '] _ _ _ _
    hblank (by simp) (hentries _) hblank hblank (by simp) hvalue
  have hline : quotedLine.toList = locationKey.toList ++ ':' :: ([' '] ++ '\x7b' ::
      ([' '] ++ ("Line".toList ++ ':' :: ([' '] ++ (['4'] ++ ([] ++ ',' ::
        ([' '] ++ ("File".toList ++ ':' :: ([' '] ++ Yaml.quoteMark true ::
          ("/src/it's.c".toList.flatMap (Yaml.inQuotes true) ++
            Yaml.quoteMark true :: ", Column: 3 \x7d".toList)))))))))) := by decide +kernel
  rw [← hline] at hfield
  exact @GivesFile.mk _ _ false "DebugLoc: \x7b Line: 4, ".toList _ hfield (by decide +kernel)
    (by decide +kernel) (by simp)

theorem filterLines_quotedDocument :
    IsDocument quotedDocument ∧ quotedDocument.filter isLocationLine = [quotedLine] ∧
      decode? quotedDocument = some quotedRemark ∧ GivesFile "/src/it's.c" quotedLine ∧
      HasField quotedDocument quotedLine ∧
      filterLines ⟨"it's.c"⟩ quotedDocument = [quotedRemark] := by
  have hdoc : IsDocument quotedDocument := ⟨quotedDocument.dropLast, by decide, by decide⟩
  have hloc : quotedDocument.filter isLocationLine = [quotedLine] := by decide +kernel
  have hr : decode? quotedDocument = some quotedRemark := by
    refine (decode?_cons _ _).trans ?_
    decide +kernel
  have hfield : HasField quotedDocument quotedLine :=
    @HasField.mk "--- !Passed" quotedLine ["Pass: inline", "Name: Inlined"]
      ["Function: main", "Args: []", "..."] (.inr (by decide +kernel))
  have hsame : sameFile ⟨quotedRemark.location.file⟩ ⟨"it's.c"⟩ = true := by decide +kernel
  have hfollows :=
    ((filterLines_follows_decoder ⟨"it's.c"⟩ hdoc hloc hr).1 _ givesFile_quotedLine hfield).2
  rw [hsame, if_pos rfl] at hfollows
  exact ⟨hdoc, hloc, hr, givesFile_quotedLine, hfield, hfollows⟩

/-- A document with its file on the line after its location line. -/
def brokenDocument : List String :=
  ["--- !Passed", "Pass: inline", "Name: Inlined", "DebugLoc: \x7b",
    "  File: a.c, Line: 4, Column: 3 \x7d", "Function: main", "Args: []", "..."]

/-- The filter does not follow the decoder everywhere: it drops a document
    about the file that names it on a line after the location line. -/
theorem filterLines_drops_brokenDocument :
    ¬ ∀ (relevant : Path) (doc : List String) (loc : String) (r : Remark),
      IsDocument doc → doc.filter isLocationLine = [loc] → decode? doc = some r →
      filterLines relevant doc = if sameFile ⟨r.location.file⟩ relevant then [r] else [] := by
  intro h
  have hdoc : IsDocument brokenDocument :=
    ⟨brokenDocument.dropLast, by decide, by decide⟩
  have hloc : brokenDocument.filter isLocationLine = ["DebugLoc: \x7b"] := by decide +kernel
  have hr : decode? brokenDocument =
      some ⟨"inline", .passed, "Inlined", "main", ⟨"a.c", 4, 3⟩, []⟩ := by
    refine (decode?_cons _ _).trans ?_
    decide +kernel
  have hnames : ¬ namesFile ⟨"a.c"⟩ "DebugLoc: \x7b" = true := by decide +kernel
  have hsame : sameFile ⟨"a.c"⟩ ⟨"a.c"⟩ = true := by decide +kernel
  have heq := h ⟨"a.c"⟩ brokenDocument _ _ hdoc hloc hr
  rw [filterLines_of_location _ hdoc hloc hr, if_neg hnames, hsame, if_pos rfl] at heq
  cases heq

end CompilerRemarks.Remark
