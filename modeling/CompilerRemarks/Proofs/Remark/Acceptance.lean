/-
  CompilerRemarks.Proofs.Remark.Acceptance

  Which documents are remarks. The relations of the first section say what a
  body has to hold, value by value: scalars, places, arguments and the remark
  itself. Each reader of the decoder agrees with its relation, so a document
  is decoded just if its first line names a kind and the value of its body is
  that of a remark (`ofYaml?_eq_some_iff`).
-/
import CompilerRemarks.Proofs.Text.Numeral
import CompilerRemarks.Remark.Document
import Mathlib.Data.List.Forall2

namespace CompilerRemarks.Remark

open Yaml (Value)

/-! ## What a body holds -/

/-- A string, a number or a boolean under any tags, with its text. -/
inductive IsScalar : Value → String → Prop where
  | string (s : String) : IsScalar (.string s) s
  | number (n : Yaml.Number) : IsScalar (.number n) n.text
  | yes : IsScalar (.bool true) "true"
  | no : IsScalar (.bool false) "false"
  | tagged (tag : String) {v : Value} {s : String} (h : IsScalar v s) : IsScalar (.tagged tag v) s

/-- A value under any number of tags. -/
inductive Wraps : Value → Value → Prop where
  | plain (v : Value) : Wraps v v
  | tagged (tag : String) {v w : Value} (h : Wraps v w) : Wraps (.tagged tag v) w

/-- The entry of an untagged string key, which is the first with that key. -/
def HasEntry (entries : List (Value × Value)) (key : String) (v : Value) : Prop :=
  ∃ before after, entries = before ++ (.string key, v) :: after ∧
    ∀ e ∈ before, e.1 ≠ .string key

/-- A line or column: an untagged integer of 32 bits, or an untagged string
    that writes one between blanks. -/
inductive IsCoordinate : Value → UInt32 → Prop where
  | integer (n : UInt32) : IsCoordinate (.number (.natural n.toNat)) n
  | text {s : String} {n : UInt32} {gap core gap' : List Char}
      (hs : s.toList = gap ++ (core ++ gap')) (hgap : ∀ c ∈ gap, Text.isBlank c = true)
      (hgap' : ∀ c ∈ gap', Text.isBlank c = true) (hcore : Text.Writes core n.toNat) :
      IsCoordinate (.string s) n

/-- A place: a mapping with a file that is not empty, a line and a column. -/
inductive IsLocation : Value → Location → Prop where
  | mk {v file line column : Value} {entries : List (Value × Value)} {l : Location}
      (hv : Wraps v (.mapping entries))
      (hfile : HasEntry entries "File" file) (htext : IsScalar file l.file) (hne : l.file ≠ "")
      (hline : HasEntry entries "Line" line) (hlineNumber : IsCoordinate line l.line)
      (hcolumn : HasEntry entries "Column" column) (hcolumnNumber : IsCoordinate column l.column) :
      IsLocation v l

/-- The value of an argument: an untagged mapping is a place, a scalar its
    text, and all else the empty text. -/
inductive IsContent : Value → Content → Prop where
  | place {entries : List (Value × Value)} {l : Location} (h : IsLocation (.mapping entries) l) :
      IsContent (.mapping entries) (.place l)
  | text {v : Value} {s : String} (h : IsScalar v s) : IsContent v (.text s)
  | other {v : Value} (hmapping : ∀ entries, v ≠ .mapping entries)
      (hscalar : ∀ s, ¬ IsScalar v s) : IsContent v (.text "")

/-- An argument: a mapping with one entry, which a second one under the key of
    places may pin to a place unless that is the first key already. -/
inductive IsArgument : Value → Argument → Prop where
  | alone {item key value : Value} {k : String} {content : Content}
      (hitem : Wraps item (.mapping [(key, value)])) (hkey : IsScalar key k)
      (hvalue : IsContent value content) : IsArgument item ⟨k, content, none⟩
  | pinned {item key value extra site : Value} {k : String} {content : Content} {l : Location}
      (hitem : Wraps item (.mapping [(key, value), (extra, site)])) (hkey : IsScalar key k)
      (hvalue : IsContent value content) (hextra : Wraps extra (.string locationKey))
      (hne : k ≠ locationKey) (hsite : IsLocation site l) : IsArgument item ⟨k, content, some l⟩

/-- The arguments: an untagged sequence of them, or an untagged null for none. -/
inductive AreArguments : Value → List Argument → Prop where
  | null : AreArguments .null []
  | sequence {items : List Value} {args : List Argument}
      (h : List.Forall₂ IsArgument items args) : AreArguments (.sequence items) args

/-- The value of a body with the remark that it describes, its kind apart. -/
inductive Describes : Value → Remark → Prop where
  | mk {v location function name pass args : Value} {entries : List (Value × Value)} {r : Remark}
      (hv : Wraps v (.mapping entries))
      (hlocation : HasEntry entries locationKey location) (hplace : IsLocation location r.location)
      (hfunction : HasEntry entries "Function" function)
      (hfunctionText : IsScalar function r.function)
      (hname : HasEntry entries "Name" name) (hnameText : IsScalar name r.name)
      (hpass : HasEntry entries "Pass" pass) (hpassText : IsScalar pass r.pass)
      (hargs : HasEntry entries "Args" args) (hargList : AreArguments args r.args) : Describes v r

/-! ## Scalars and mappings -/

theorem scalarText?_eq_some_iff {v : Value} {s : String} :
    scalarText? v = some s ↔ IsScalar v s := by
  constructor
  · intro h
    fun_induction scalarText? v with
    | case1 t => exact Option.some.inj h ▸ .string t
    | case2 n => exact Option.some.inj h ▸ .number n
    | case3 => exact Option.some.inj h ▸ .yes
    | case4 => exact Option.some.inj h ▸ .no
    | case5 tag v ih => exact .tagged tag (ih h)
    | case6 => cases h
    | case7 => cases h
    | case8 => cases h
  · intro h
    induction h with
    | string s => rfl
    | number n => rfl
    | yes => rfl
    | no => rfl
    | tagged tag _ ih => exact ih

theorem untagged_eq_iff {v w : Value} (hw : ∀ tag u, w ≠ .tagged tag u) :
    v.untagged = w ↔ Wraps v w := by
  constructor
  · intro h
    fun_induction Value.untagged v with
    | case1 tag v ih => exact .tagged tag (ih h)
    | case2 v hplain => exact h ▸ .plain v
  · intro h
    induction h with
    | plain v =>
      rw [Value.untagged]
      exact hw
    | tagged tag _ ih => exact ih hw

theorem mapping?_eq_some_iff {v : Value} {entries : List (Value × Value)} :
    v.mapping? = some entries ↔ Wraps v (.mapping entries) := by
  rw [← untagged_eq_iff (by simp), Value.mapping?]
  cases v.untagged <;> simp

theorem string?_eq_some_iff {v : Value} {s : String} :
    v.string? = some s ↔ Wraps v (.string s) := by
  rw [← untagged_eq_iff (by simp), Value.string?]
  cases v.untagged <;> simp

theorem lookup?_eq_some_iff {entries : List (Value × Value)} {key : String} {v : Value} :
    Value.lookup? entries key = some v ↔ HasEntry entries key v := by
  have hself : ∀ (w : Value) rest, Value.lookup? ((.string key, w) :: rest) key = some w := by
    simp [Value.lookup?]
  constructor
  · intro h
    induction entries with
    | nil => cases h
    | cons e rest ih =>
      obtain ⟨k, w⟩ := e
      by_cases hk : k = .string key
      · subst hk
        cases (hself w rest).symm.trans h
        exact ⟨[], rest, rfl, fun e he => absurd he List.not_mem_nil⟩
      · rw [Value.lookup?_cons_of_ne hk] at h
        obtain ⟨before, after, rfl, hbefore⟩ := ih h
        exact ⟨(k, w) :: before, after, rfl, List.forall_mem_cons.mpr ⟨hk, hbefore⟩⟩
  · rintro ⟨before, after, rfl, hbefore⟩
    induction before with
    | nil => exact hself v after
    | cons e before ih =>
      obtain ⟨hk, hrest⟩ := List.forall_mem_cons.mp hbefore
      rw [List.cons_append, Value.lookup?_cons_of_ne hk, ih hrest]

/-- The value of a field is read just if the entry of its key is one that the
    reader takes. -/
theorem lookup?_bind_eq_some_iff {α : Type} {read : Value → Option α} {Reads : Value → α → Prop}
    (hread : ∀ {v a}, read v = some a ↔ Reads v a) {entries : List (Value × Value)} {key : String}
    {a : α} :
    (Value.lookup? entries key).bind read = some a ↔ ∃ v, HasEntry entries key v ∧ Reads v a := by
  simp only [Option.bind_eq_some_iff, lookup?_eq_some_iff, hread]

/-! ## Places -/

theorem unsigned?_eq_some_iff {v : Value} {n : UInt32} :
    unsigned? v = some n ↔ IsCoordinate v n := by
  constructor
  · intro h
    unfold unsigned? at h
    split at h
    case h_1 m =>
      split at h
      case isTrue hm =>
        cases h
        have hback := IsCoordinate.integer m.toUInt32
        rwa [Nat.toUInt32_eq, UInt32.toNat_ofNat_of_lt' hm] at hback
      case isFalse => cases h
    case h_2 s =>
      obtain ⟨gap, core, gap', hs, hgap, hgap', hcore⟩ := Text.word32?_trim_eq_some_iff.mp h
      exact .text hs hgap hgap' hcore
    case h_3 => cases h
  · intro h
    cases h with
    | integer => 
      rw [unsigned?, if_pos n.toNat_lt]
      exact congrArg some UInt32.ofNat_toNat
    | text hs hgap hgap' hcore =>
      exact Text.word32?_trim_eq_some_iff.mpr ⟨_, _, _, hs, hgap, hgap', hcore⟩

theorem Location.ofYaml?_eq_some_iff {v : Value} {l : Location} :
    Location.ofYaml? v = some l ↔ IsLocation v l := by
  simp only [Location.ofYaml?, Option.bind_eq_bind, Option.bind_eq_some_iff, mapping?_eq_some_iff,
    lookup?_bind_eq_some_iff scalarText?_eq_some_iff, beq_iff_eq]
  constructor
  · rintro ⟨entries, hv, file, ⟨fileValue, hfile, htext⟩, h⟩
    by_cases hne : file = ""
    · simp [hne] at h
    · rw [if_neg hne] at h
      simp only [Option.bind_eq_some_iff, lookup?_bind_eq_some_iff unsigned?_eq_some_iff] at h
      obtain ⟨line, ⟨_, hline, hlineNumber⟩, column, ⟨_, hcolumn, hcolumnNumber⟩, h⟩ := h
      cases h
      exact .mk hv hfile htext hne hline hlineNumber hcolumn hcolumnNumber
  · rintro ⟨hv, hfile, htext, hne, hline, hlineNumber, hcolumn, hcolumnNumber⟩
    refine ⟨_, hv, l.file, ⟨_, hfile, htext⟩, ?_⟩
    rw [if_neg hne]
    simp only [Option.bind_eq_some_iff, lookup?_bind_eq_some_iff unsigned?_eq_some_iff]
    exact ⟨l.line, ⟨_, hline, hlineNumber⟩, l.column, ⟨_, hcolumn, hcolumnNumber⟩, rfl⟩

/-! ## Arguments -/

theorem Content.ofYaml?_of_ne_mapping {v : Value} (h : ∀ entries, v ≠ .mapping entries) :
    Content.ofYaml? v = some (.text ((scalarText? v).getD "")) := by
  cases v with
  | mapping entries => exact absurd rfl (h entries)
  | _ => rfl

theorem IsScalar.ne_mapping {v : Value} {s : String} (h : IsScalar v s)
    (entries : List (Value × Value)) : v ≠ .mapping entries := by
  rintro rfl
  cases h

theorem Content.ofYaml?_eq_some_iff {v : Value} {c : Content} :
    Content.ofYaml? v = some c ↔ IsContent v c := by
  constructor
  · intro h
    by_cases hmapping : ∃ entries, v = .mapping entries
    · obtain ⟨entries, rfl⟩ := hmapping
      obtain ⟨l, hl, rfl⟩ := Option.map_eq_some_iff.mp h
      exact .place (Location.ofYaml?_eq_some_iff.mp hl)
    · have hne := fun entries heq => hmapping ⟨entries, heq⟩
      rw [Content.ofYaml?_of_ne_mapping hne] at h
      cases hscalar : scalarText? v with
      | none =>
        rw [hscalar] at h
        cases h
        refine .other hne fun s hs => ?_
        rw [scalarText?_eq_some_iff.mpr hs] at hscalar
        cases hscalar
      | some s =>
        rw [hscalar] at h
        cases h
        exact .text (scalarText?_eq_some_iff.mp hscalar)
  · intro h
    cases h with
    | place hl => exact Option.map_eq_some_iff.mpr ⟨_, Location.ofYaml?_eq_some_iff.mpr hl, rfl⟩
    | text hs =>
      rw [Content.ofYaml?_of_ne_mapping hs.ne_mapping, scalarText?_eq_some_iff.mpr hs,
        Option.getD_some]
    | other hmapping hscalar =>
      have hnone : scalarText? v = none :=
        Option.eq_none_iff_forall_ne_some.mpr fun s hs => hscalar s (scalarText?_eq_some_iff.mp hs)
      rw [Content.ofYaml?_of_ne_mapping hmapping, hnone, Option.getD_none]

theorem Argument.ofYaml?_eq_some_iff {item : Value} {a : Argument} :
    item.mapping?.bind Argument.ofYaml? = some a ↔ IsArgument item a := by
  simp only [Option.bind_eq_some_iff, mapping?_eq_some_iff]
  constructor
  · rintro ⟨entries, hitem, h⟩
    unfold Argument.ofYaml? at h
    split at h
    case h_1 key value =>
      simp only [Option.bind_eq_bind, Option.bind_eq_some_iff, scalarText?_eq_some_iff,
        Content.ofYaml?_eq_some_iff] at h
      obtain ⟨k, hkey, content, hvalue, h⟩ := h
      cases h
      exact .alone hitem hkey hvalue
    case h_2 key value extra site =>
      simp only [Option.bind_eq_bind, Option.bind_eq_some_iff, scalarText?_eq_some_iff,
        Content.ofYaml?_eq_some_iff] at h
      obtain ⟨k, hkey, content, hvalue, h⟩ := h
      split at h
      case isTrue hpins =>
        simp only [Bool.and_eq_true, beq_iff_eq, string?_eq_some_iff, bne_iff_ne] at hpins
        simp only [Option.bind_eq_some_iff, Location.ofYaml?_eq_some_iff] at h
        obtain ⟨l, hsite, h⟩ := h
        cases h
        exact .pinned hitem hkey hvalue hpins.1 hpins.2 hsite
      case isFalse => cases h
    case h_3 => cases h
  · intro h
    cases h with
    | alone hitem hkey hvalue =>
      refine ⟨_, hitem, ?_⟩
      simp only [Argument.ofYaml?, Option.bind_eq_bind, Option.bind_eq_some_iff,
        scalarText?_eq_some_iff, Content.ofYaml?_eq_some_iff]
      exact ⟨_, hkey, _, hvalue, rfl⟩
    | pinned hitem hkey hvalue hextra hne hsite =>
      refine ⟨_, hitem, ?_⟩
      simp only [Argument.ofYaml?, Option.bind_eq_bind, Option.bind_eq_some_iff,
        scalarText?_eq_some_iff, Content.ofYaml?_eq_some_iff]
      refine ⟨_, hkey, _, hvalue, ?_⟩
      rw [if_pos (by simp [string?_eq_some_iff.mpr hextra, hne])]
      simp only [Option.bind_eq_some_iff, Location.ofYaml?_eq_some_iff]
      exact ⟨_, hsite, rfl⟩

theorem mapM_eq_some_iff {α β : Type} {read : α → Option β} {Reads : α → β → Prop}
    (hread : ∀ {a b}, read a = some b ↔ Reads a b) {xs : List α} {ys : List β} :
    xs.mapM read = some ys ↔ List.Forall₂ Reads xs ys := by
  induction xs generalizing ys with
  | nil => simp [eq_comm]
  | cons x xs ih =>
    simp only [List.mapM_cons, Option.bind_eq_bind, Option.bind_eq_some_iff, hread, ih,
      List.forall₂_cons_left_iff]
    constructor
    · rintro ⟨y, hy, rest, hrest, h⟩
      cases h
      exact ⟨y, rest, hy, hrest, rfl⟩
    · rintro ⟨y, rest, hy, hrest, rfl⟩
      exact ⟨y, hy, rest, hrest, rfl⟩

theorem Argument.listOfYaml?_eq_some_iff {v : Value} {args : List Argument} :
    Argument.listOfYaml? v = some args ↔ AreArguments v args := by
  constructor
  · intro h
    unfold Argument.listOfYaml? at h
    split at h
    case h_1 items => exact .sequence ((mapM_eq_some_iff Argument.ofYaml?_eq_some_iff).mp h)
    case h_2 =>
      cases h
      exact .null
    case h_3 => cases h
  · intro h
    cases h with
    | null => rfl
    | sequence hitems => exact (mapM_eq_some_iff Argument.ofYaml?_eq_some_iff).mpr hitems

/-! ## Remarks -/

theorem ofYaml?_eq_some_iff {kind : Kind} {v : Value} {r : Remark} :
    ofYaml? kind v = some r ↔ Describes v r ∧ r.kind = kind := by
  simp only [ofYaml?, Option.bind_eq_bind, Option.bind_eq_some_iff, mapping?_eq_some_iff,
    lookup?_bind_eq_some_iff Location.ofYaml?_eq_some_iff,
    lookup?_bind_eq_some_iff scalarText?_eq_some_iff,
    lookup?_bind_eq_some_iff Argument.listOfYaml?_eq_some_iff]
  constructor
  · rintro ⟨entries, hv, location, ⟨_, hlocation, hplace⟩, function, ⟨_, hfunction, hfunctionText⟩,
      name, ⟨_, hname, hnameText⟩, pass, ⟨_, hpass, hpassText⟩, args, ⟨_, hargs, hargList⟩, h⟩
    cases h
    exact ⟨.mk hv hlocation hplace hfunction hfunctionText hname hnameText hpass hpassText hargs
      hargList, rfl⟩
  · rintro ⟨⟨hv, hlocation, hplace, hfunction, hfunctionText, hname, hnameText, hpass, hpassText,
      hargs, hargList⟩, rfl⟩
    exact ⟨_, hv, r.location, ⟨_, hlocation, hplace⟩, r.function, ⟨_, hfunction, hfunctionText⟩,
      r.name, ⟨_, hname, hnameText⟩, r.pass, ⟨_, hpass, hpassText⟩, r.args, ⟨_, hargs, hargList⟩,
      rfl⟩

/-! ## Lines -/

/-- A line that holds a text and then blanks at most. -/
def HoldsOnly (line text : String) : Prop :=
  ∃ gap, (∀ c ∈ gap, Text.isBlank c = true) ∧ line.toList = text.toList ++ gap

/-- The lines of a body: those after the first, without a last one that ends
    the document. -/
inductive IsBody : List String → List String → Prop where
  | ended {lines : List String} {last : String} (h : HoldsOnly last terminator) :
      IsBody (lines ++ [last]) lines
  | unended {lines : List String} (h : ∀ last ∈ lines.getLast?, ¬ HoldsOnly last terminator) :
      IsBody lines lines

theorem trimmedEnd_eq_iff {line text : String}
    (hlast : ∀ c ∈ text.toList.getLast?, Text.isBlank c = false) :
    Text.trimmedEnd line = text ↔ HoldsOnly line text := by
  rw [Text.trimmedEnd, ← String.toList_inj, String.toList_ofList, Text.trimEnd_eq_iff hlast,
    HoldsOnly]

theorem bodyLines_eq_iff {lines body : List String} :
    bodyLines lines = body ↔ IsBody lines body := by
  have hends : ∀ line, Text.trimmedEnd line = terminator ↔ HoldsOnly line terminator := by
    intro line
    refine trimmedEnd_eq_iff fun c hc => ?_
    cases hc
    rfl
  constructor
  · rintro rfl
    unfold bodyLines
    split
    case h_1 last hlast =>
      split
      case isTrue hend =>
        have hended : IsBody (lines.dropLast ++ [last]) lines.dropLast :=
          .ended ((hends last).mp (beq_iff_eq.mp hend))
        rwa [List.dropLast_append_getLast? last hlast] at hended
      case isFalse hopen =>
        refine .unended fun other hother => ?_
        rw [Option.mem_def, hlast] at hother
        cases hother
        exact mt (hends last).mpr (by simpa using hopen)
    case h_2 hnone =>
      rw [List.getLast?_eq_none_iff.mp hnone]
      exact .unended fun last hlast => nomatch hlast
  · intro h
    cases h with
    | ended hend =>
      rw [bodyLines, List.getLast?_concat]
      simp [(hends _).mpr hend]
    | unended hopen =>
      unfold bodyLines
      split
      case h_1 last hlast =>
        rw [if_neg]
        simpa using mt (hends last).mp (hopen last hlast)
      case h_2 hnone => exact (List.getLast?_eq_none_iff.mp hnone).symm

theorem dropStart?_append (start rest : List Char) :
    dropStart? start (start ++ rest) = some rest := by
  induction start with
  | nil => rfl
  | cons a start ih => rw [List.cons_append, dropStart?, beq_self_eq_true, if_pos rfl, ih]

theorem eq_append_of_dropStart? {start s rest : List Char} (h : dropStart? start s = some rest) :
    s = start ++ rest := by
  fun_induction dropStart? start s with
  | case1 s => rw [Option.some.inj h, List.nil_append]
  | case2 a start b s hab ih => rw [ih h, beq_iff_eq.mp hab, List.cons_append]
  | case3 a start b s hab => exact absurd h (by simp)
  | case4 a start => exact absurd h (by simp)

theorem Kind.ofName?_eq_some_iff {s : String} {kind : Kind} :
    Kind.ofName? s = some kind ↔ s = kind.name := by
  constructor
  · intro h
    unfold Kind.ofName? at h
    split at h
    case isTrue hs =>
      cases h
      exact beq_iff_eq.mp hs
    case isFalse =>
      split at h
      case isTrue hs =>
        cases h
        exact beq_iff_eq.mp hs
      case isFalse =>
        split at h
        case isTrue hs =>
          cases h
          exact beq_iff_eq.mp hs
        case isFalse => cases h
  · rintro rfl
    cases kind <;> rfl

theorem Kind.ofMarker?_eq_some_iff {line : String} {kind : Kind} :
    Kind.ofMarker? line = some kind ↔ HoldsOnly line ("--- !" ++ kind.name) := by
  have hlast : ∀ c ∈ kind.name.toList.getLast?, Text.isBlank c = false := by
    intro c hc
    cases kind <;> cases hc <;> rfl
  have htag : ∀ tag, Kind.ofName? (String.ofList (Text.trimEnd tag)) = some kind ↔
      ∃ gap, (∀ c ∈ gap, Text.isBlank c = true) ∧ tag = kind.name.toList ++ gap := by
    intro tag
    rw [Kind.ofName?_eq_some_iff, ← String.toList_inj, String.toList_ofList,
      Text.trimEnd_eq_iff hlast]
  simp only [Kind.ofMarker?, Option.bind_eq_some_iff, htag, HoldsOnly, String.toList_append,
    List.append_assoc]
  constructor
  · rintro ⟨tag, hdrop, gap, hgap, rfl⟩
    exact ⟨gap, hgap, eq_append_of_dropStart? hdrop⟩
  · rintro ⟨gap, hgap, hline⟩
    refine ⟨kind.name.toList ++ gap, ?_, gap, hgap, rfl⟩
    rw [hline]
    exact dropStart?_append marker _

/-- A document is a remark just if its first line names the kind of the remark
    and the lines after it, but for one that ends them, are YAML for a value
    that describes it. -/
theorem decode?_accepts_iff (lines : List String) (r : Remark) :
    decode? lines = some r ↔
      ∃ first rest body value, lines = first :: rest ∧
        HoldsOnly first ("--- !" ++ r.kind.name) ∧ IsBody rest body ∧
        Value.ofText? ("\n".intercalate body).toList = some value ∧ Describes value r := by
  constructor
  · intro h
    cases lines with
    | nil => cases h
    | cons first rest =>
      simp only [decode?, Option.bind_eq_bind, Option.bind_eq_some_iff, Kind.ofMarker?_eq_some_iff,
        ofYaml?_eq_some_iff] at h
      obtain ⟨kind, hfirst, value, hvalue, hdescribes, rfl⟩ := h
      exact ⟨first, rest, bodyLines rest, value, rfl, hfirst, bodyLines_eq_iff.mp rfl, hvalue,
        hdescribes⟩
  · rintro ⟨first, rest, body, value, rfl, hfirst, hbody, hvalue, hdescribes⟩
    simp only [decode?, Option.bind_eq_bind, Option.bind_eq_some_iff, Kind.ofMarker?_eq_some_iff,
      ofYaml?_eq_some_iff]
    refine ⟨r.kind, hfirst, value, ?_, hdescribes, rfl⟩
    rw [bodyText, bodyLines_eq_iff.mpr hbody]
    exact hvalue

end CompilerRemarks.Remark
