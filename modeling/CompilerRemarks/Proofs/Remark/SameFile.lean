/-
  CompilerRemarks.Proofs.Remark.SameFile

  Which file a filter is for. A path is known by its name, or by all of its
  components if it has no name (`Path.identity`), and two paths are the same
  file just when they are known by the same (`sameFile_iff_identity`). So being
  the same file is an equivalence, and location lines tell two paths apart just
  when they are different files (`namesFile_eq_iff`).

  A filter never looks at its path but to ask whether a location line names it.
  Two filters for the same file therefore stay in step: a line takes both from
  states that differ in the path alone to such states again, and reports the
  same (`Filter.push_retarget`), so whole records give the same reports
  (`Filter.emissions_retarget`).
-/
import CompilerRemarks.Proofs.Remark.LocationLine

namespace CompilerRemarks

/-! ## Identities -/

namespace Path

/-- What a path is known by: its name, or all its components if it has none. -/
inductive Identity where
  | named (name : List Char)
  | unnamed (components : List Component)
  deriving DecidableEq, Repr

/-- What a path is known by. -/
def identity (p : Path) : Identity :=
  match p.fileName? with
  | some name => .named name
  | none => .unnamed p.components

theorem fileName?_congr {p q : Path} (h : p.components = q.components) :
    p.fileName? = q.fileName? := by
  rw [fileName?, fileName?, h]

theorem identity_of_named {p : Path} {name : List Char} (h : p.fileName? = some name) :
    p.identity = .named name := by
  rw [identity, h]

theorem identity_of_unnamed {p : Path} (h : p.fileName? = none) :
    p.identity = .unnamed p.components := by
  rw [identity, h]

end Path

namespace Remark

/-- Paths are the same file if they are the same path, or if they have the same
    name. -/
theorem sameFile_iff (p q : Path) : sameFile p q = true ↔
    p.components = q.components ∨ ∃ name, p.fileName? = some name ∧ q.fileName? = some name := by
  rw [sameFile, Bool.or_eq_true, Path.same_iff, Bool.and_eq_true, Option.isSome_iff_exists,
    beq_iff_eq]
  constructor
  · rintro (hsame | ⟨⟨name, hp⟩, heq⟩)
    · exact .inl hsame
    · exact .inr ⟨name, hp, heq ▸ hp⟩
  · rintro (hsame | ⟨name, hp, hq⟩)
    · exact .inl hsame
    · exact .inr ⟨⟨name, hp⟩, hp.trans hq.symm⟩

theorem sameFile_iff_identity (p q : Path) :
    sameFile p q = true ↔ p.identity = q.identity := by
  rw [sameFile_iff]
  constructor
  · rintro (hsame | ⟨name, hp, hq⟩)
    · -- paths with the same components have the same name, if any
      have hname := Path.fileName?_congr hsame
      rw [Path.identity, Path.identity, hname, hsame]
    · rw [Path.identity_of_named hp, Path.identity_of_named hq]
  · intro h
    cases hp : p.fileName? with
    | some name =>
      rw [Path.identity_of_named hp] at h
      cases hq : q.fileName? with
      | some name' =>
        rw [Path.identity_of_named hq, Path.Identity.named.injEq] at h
        exact .inr ⟨name, rfl, by rw [h]⟩
      | none =>
        rw [Path.identity_of_unnamed hq] at h
        cases h
    | none =>
      rw [Path.identity_of_unnamed hp] at h
      cases hq : q.fileName? with
      | some name =>
        rw [Path.identity_of_named hq] at h
        cases h
      | none =>
        rw [Path.identity_of_unnamed hq, Path.Identity.unnamed.injEq] at h
        exact .inl h

/-- Being the same file is being known by the same, so it is an equivalence. -/
theorem equivalence_sameFile : Equivalence fun p q : Path => sameFile p q = true where
  refl p := (sameFile_iff_identity p p).mpr rfl
  symm {p q} h := (sameFile_iff_identity q p).mpr ((sameFile_iff_identity p q).mp h).symm
  trans {p q r} hpq hqr := (sameFile_iff_identity p r).mpr
    (((sameFile_iff_identity p q).mp hpq).trans ((sameFile_iff_identity q r).mp hqr))

theorem sameFile_congr_right {p q : Path} (h : sameFile p q = true) (r : Path) :
    sameFile r p = sameFile r q := by
  have hidentity : p.identity = q.identity := (sameFile_iff_identity p q).mp h
  rw [Bool.eq_iff_iff, sameFile_iff_identity, sameFile_iff_identity, hidentity]

/-- A path without a name is the same file as no other path. -/
theorem sameFile_of_unnamed {q : Path} (hq : q.fileName? = none) (p : Path) :
    sameFile p q = true ↔ p.components = q.components := by
  rw [sameFile_iff]
  refine or_iff_left ?_
  rintro ⟨name, -, hname⟩
  rw [hq] at hname
  cases hname

/-! ## Location lines -/

theorem namesFile_congr {p q : Path} (h : sameFile p q = true) (line : String) :
    namesFile p line = namesFile q line := by
  have hsame : (fun file => sameFile ⟨file⟩ p) = fun file => sameFile ⟨file⟩ q :=
    funext fun file => sameFile_congr_right h ⟨file⟩
  rw [namesFile_eq_any, namesFile_eq_any, hsame]

theorem exists_of_namesFile {p : Path} {line : String} (h : namesFile p line = true) :
    ∃ file, extractFile? line = some file ∧ sameFile ⟨file⟩ p = true := by
  rw [namesFile_eq_any, Option.any_eq_true] at h
  exact h

/-- How a location line starts that has nothing before its file. -/
def lineStart : List Char := "DebugLoc: \x7b ".toList

/-- The location line of a file, which is written in single quotes. -/
def lineOf (file : String) : String :=
  String.ofList (lineStart ++
    (fileKey ++ ([' '] ++ '\'' :: (doubled file.toList ++ '\'' :: [' ', '\x7d']))))

theorem carries_lineOf (file : String) : Carries (lineOf file) file := by
  have hkey : ¬ fileKey <:+: lineStart := by decide +kernel
  have hgap : ∀ c ∈ [' '], Text.isBlank c = true := by
    intro c hc
    rw [List.mem_singleton.mp hc]
    rfl
  have hquote : [' ', '\x7d'].head? ≠ some '\'' := by decide
  exact ⟨lineStart, [' '], _, String.toList_ofList, hkey, hgap, .single _ hquote⟩

theorem isLocationLine_lineOf (file : String) : isLocationLine (lineOf file) = true := by
  have hstart : locationMark <+: lineStart := by decide +kernel
  rw [isLocationLine, List.isPrefixOf_iff_prefix, lineOf, String.toList_ofList]
  exact hstart.trans (List.prefix_append _ _)

theorem namesFile_lineOf {p : Path} (hp : p.text ≠ "") (q : Path) :
    namesFile q (lineOf p.text) = sameFile p q := by
  rw [namesFile_eq_any, extractFile?_of_carries hp (carries_lineOf p.text), Option.any_some]

/-- No location line tells two paths apart just if they are the same file. -/
theorem namesFile_eq_iff (p q : Path) :
    (∀ line, isLocationLine line = true → namesFile p line = namesFile q line) ↔
      sameFile p q = true := by
  constructor
  · intro h
    by_cases hp : p.text = ""
    · by_cases hq : q.text = ""
      · -- there is only one empty path
        obtain ⟨s⟩ := p
        obtain ⟨t⟩ := q
        cases hp
        cases hq
        exact equivalence_sameFile.refl _
      · have hline := h (lineOf q.text) (isLocationLine_lineOf q.text)
        rw [namesFile_lineOf hq, namesFile_lineOf hq, equivalence_sameFile.refl q] at hline
        exact equivalence_sameFile.symm hline
    · have hline := h (lineOf p.text) (isLocationLine_lineOf p.text)
      rw [namesFile_lineOf hp, namesFile_lineOf hp, equivalence_sameFile.refl p] at hline
      exact hline.symm
  · intro h line _
    exact namesFile_congr h line

/-! ## Two filters -/

namespace Filter

/-- The filter with another path. -/
def retarget (f : Filter) (p : Path) : Filter :=
  { f with relevant := p }

theorem new_retarget (p q : Path) : (new p).retarget q = new q :=
  rfl

theorem note_retarget {f : Filter} {p : Path} (h : sameFile f.relevant p = true) (line : String) :
    (f.retarget p).note line = (f.note line).retarget p := by
  have hnames : namesFile f.relevant line = namesFile p line := namesFile_congr h line
  rw [note, note]
  split
  · simp only [retarget, hnames]
  · rfl

theorem close_retarget (f : Filter) (p : Path) :
    (f.retarget p).close = (f.close.1.retarget p, f.close.2) :=
  rfl

theorem relevant_note (f : Filter) (line : String) : (f.note line).relevant = f.relevant := by
  rw [note]
  split <;> rfl

theorem relevant_push (f : Filter) (line : String) : (f.push line).1.relevant = f.relevant := by
  rw [push]
  split
  · rw [close, relevant_note]
  · exact relevant_note f line

/-- A line keeps two filters for the same file in step. -/
theorem push_retarget {f : Filter} {p : Path} (h : sameFile f.relevant p = true) (line : String) :
    (f.retarget p).push line = ((f.push line).1.retarget p, (f.push line).2) := by
  rw [push, push, note_retarget h]
  split
  · exact close_retarget _ p
  · rfl

/-- Filters for the same file report the same on the same lines. -/
theorem emissions_retarget {f : Filter} {p : Path} (h : sameFile f.relevant p = true)
    (lines : List String) : (f.retarget p).emissions lines = f.emissions lines := by
  induction lines generalizing f with
  | nil => rfl
  | cons line rest ih =>
    -- the next states differ in the path alone, which is still the same file
    have hnext : sameFile (f.push line).1.relevant p = true := by
      rw [relevant_push]
      exact h
    rw [emissions, emissions, push_retarget h, ih hnext]

theorem emissions_new_of_sameFile {p q : Path} (h : sameFile p q = true) (lines : List String) :
    (new p).emissions lines = (new q).emissions lines := by
  rw [← new_retarget p q]
  exact (emissions_retarget (f := new p) h lines).symm

end Filter

/-! ## Paths with and without a name -/

/-- What a filter reports at a line was decoded from the document that this line
    ends, which is about the file. -/
theorem surfaced?_of_emission {relevant : Path} {lines : List String} {i : Nat} {r : Remark}
    (h : ((Filter.new relevant).emissions lines)[i]? = some (some r)) :
    IsAbout relevant (unfinished (lines.take i) ++ [terminator]) ∧
      decode? (unfinished (lines.take i) ++ [terminator]) = some r := by
  rw [Filter.new_eq_having, Filter.getElem?_emissions_having, List.nil_append,
    Option.map_eq_some_iff] at h
  obtain ⟨line, -, hfound⟩ := h
  split at hfound
  · rw [surfaced?] at hfound
    split at hfound
    · rename_i habout
      exact ⟨habout, hfound⟩
    · cases hfound
  · cases hfound

/-- Paths with the same name, whatever their directories, make filters that
    report the same remarks on the same lines. A filter for a path without a
    name reports a remark only if its document has a location line and all its
    location lines have a file with just the components of that path, which is
    the file of the remark wherever a line carries it. Being the same file is an
    equivalence, and just the one that location lines respect. -/
theorem only_the_name_matters :
    (∀ p q : Path, p.fileName?.isSome = true → p.fileName? = q.fileName? → ∀ lines,
      (Filter.new p).emissions lines = (Filter.new q).emissions lines ∧
      filterLines p lines = filterLines q lines) ∧
    (∀ relevant : Path, relevant.fileName? = none → ∀ lines i r,
      ((Filter.new relevant).emissions lines)[i]? = some (some r) →
      let doc := unfinished (lines.take i) ++ [terminator]
      decode? doc = some r ∧ (∃ line ∈ doc, isLocationLine line = true) ∧
      ∀ line ∈ doc, isLocationLine line = true →
        (∃ file, extractFile? line = some file ∧
          (Path.mk file).components = relevant.components) ∧
        (Carries line r.location.file →
          (Path.mk r.location.file).components = relevant.components)) ∧
    Equivalence (fun p q : Path => sameFile p q = true) ∧
    ∀ p q : Path, (∀ line, isLocationLine line = true → namesFile p line = namesFile q line) ↔
      sameFile p q = true := by
  refine ⟨?_, ?_, equivalence_sameFile, namesFile_eq_iff⟩
  · intro p q hp hname lines
    obtain ⟨name, hnamed⟩ := Option.isSome_iff_exists.mp hp
    have hsame : sameFile p q = true :=
      (sameFile_iff p q).mpr (.inr ⟨name, hnamed, hname ▸ hnamed⟩)
    have hemissions := Filter.emissions_new_of_sameFile hsame lines
    refine ⟨hemissions, ?_⟩
    -- what a filter keeps is what it reports
    have hkept := Filter.remarks_pushAll (Filter.new p) lines
    have hkept' := Filter.remarks_pushAll (Filter.new q) lines
    rw [filterLines, filterLines, hkept, hkept', hemissions]
    rfl
  · intro relevant hunnamed lines i r hr doc
    obtain ⟨⟨⟨line, hmem, hloc⟩, hall⟩, hdecode⟩ := surfaced?_of_emission hr
    refine ⟨hdecode, ⟨line, hmem, hloc⟩, ?_⟩
    intro line hmem hloc
    have hnames : namesFile relevant line = true := by
      rw [namesFile_eq_any]
      exact hall line hmem hloc
    obtain ⟨file, hfile, hsame⟩ := exists_of_namesFile hnames
    have hcomponents := (sameFile_of_unnamed hunnamed ⟨file⟩).mp hsame
    refine ⟨⟨file, hfile, hcomponents⟩, ?_⟩
    intro hcarries
    -- the file that a line carries is the one that is read off it
    have hcarried := extractFile?_of_carries (file_ne_of_decode? hdecode) hcarries
    rw [hfile, Option.some.injEq] at hcarried
    rw [← hcarried]
    exact hcomponents

/-- The location line of a remark, and its document. -/
def placeLine (file : String) : String :=
  "DebugLoc: \x7b File: " ++ file ++ ", Line: 4, Column: 3 \x7d"

def remarkLines (file : String) : List String :=
  ["--- !Passed", "Pass: inline", "Name: Inlined", placeLine file, "Function: main", "Args: []",
    "..."]

def remarkAt (file : String) : Remark :=
  ⟨"inline", .passed, "Inlined", "main", ⟨file, 4, 3⟩, []⟩

/-- A record with a remark of a file and one of a path that has no name, as it
    ends in a step up. -/
def mixedLines : List String :=
  remarkLines "a.c" ++ remarkLines "src/.."

/-- The remark of the file is kept for it in any directory, and the other one for
    another spelling of its path. -/
theorem only_the_name_matters_mixed :
    let named : Path := ⟨"/w/lib/a.c"⟩
    let other : Path := ⟨"a.c"⟩
    let unnamed : Path := ⟨"src/./.."⟩
    (named.fileName?.isSome = true ∧ named.fileName? = other.fileName? ∧
      (Filter.new named).emissions mixedLines = (Filter.new other).emissions mixedLines ∧
      filterLines named mixedLines = [remarkAt "a.c"]) ∧
    unnamed.fileName? = none ∧
      ((Filter.new unnamed).emissions mixedLines)[13]? = some (some (remarkAt "src/..")) ∧
      ∃ file, extractFile? (placeLine "src/..") = some file ∧
        (Path.mk file).components = unnamed.components := by
  intro named other unnamed
  have hnamed : named.fileName?.isSome = true := by decide
  have hname : named.fileName? = other.fileName? := by decide
  have hunnamed : unnamed.fileName? = none := by decide
  obtain ⟨hsame, hpath, -, -⟩ := only_the_name_matters
  obtain ⟨hemissions, hkept⟩ := hsame named other hnamed hname mixedLines
  have hfirst : decode? (remarkLines "a.c") = some (remarkAt "a.c") := by
    refine (decode?_cons _ _).trans ?_
    decide +kernel
  have hsecond : decode? (remarkLines "src/..") = some (remarkAt "src/..") := by
    refine (decode?_cons _ _).trans ?_
    decide +kernel
  have hother : filterLines other mixedLines = [remarkAt "a.c"] := by
    have hcut : documents mixedLines = [remarkLines "a.c", remarkLines "src/.."] := by
      decide +kernel
    rw [filterLines_eq_filterMap, hcut, List.filterMap_cons, List.filterMap_cons,
      surfaced?_of_isAbout (by decide +kernel), hfirst, surfaced?_eq_none (by decide +kernel)]
    rfl
  have hthere : ((Filter.new unnamed).emissions mixedLines)[13]? =
      some (some (remarkAt "src/..")) := by
    have hseen : unfinished ([] ++ mixedLines.take 13) ++ [terminator] = remarkLines "src/.." := by
      decide +kernel
    rw [Filter.new_eq_having, Filter.getElem?_emissions_having, hseen,
      surfaced?_of_isAbout (by decide +kernel), hsecond]
    rfl
  obtain ⟨-, -, hall⟩ := hpath unnamed hunnamed mixedLines 13 _ hthere
  have hfile := (hall (placeLine "src/..") (by decide) (by decide)).1
  exact ⟨⟨hnamed, hname, hemissions, hkept.trans hother⟩, hunnamed, hthere, hfile⟩

end Remark

end CompilerRemarks
