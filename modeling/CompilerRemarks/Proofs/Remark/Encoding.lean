/-
  CompilerRemarks.Proofs.Remark.Encoding

  Remarks survive their encoding. `Encodes` says which objects stand for a
  remark: of each field the last member with its name counts, members with
  other names are free, and the place of an argument may be left out or `null`
  when there is none. Each of them is read as the remark (`ofJson?_of_encodes`);
  the one that is written is among them (`encodes_toJson`), and its text can be
  read back (`fits_toJson`).
-/
import CompilerRemarks.Proofs.Json.RoundTrip
import CompilerRemarks.Proofs.Remark.Acceptance
import CompilerRemarks.Remark.Encoding

namespace CompilerRemarks

/-! ## Members of an object -/

namespace Json

variable {members : List (String × Json)} {name : String} {value : Json}

/-- The last member of a name, which is the one that counts. -/
def HasMember (members : List (String × Json)) (name : String) (value : Json) : Prop :=
  ∃ before after, members = before ++ (name, value) :: after ∧ ∀ m ∈ after, m.1 ≠ name

theorem get?_eq_none (h : ∀ m ∈ members, m.1 ≠ name) : (object members).get? name = none := by
  have hfind : members.reverse.find? (·.1 == name) = none := by
    rw [List.find?_eq_none]
    intro m hm
    simpa using h m (List.mem_reverse.mp hm)
  rw [get?, hfind, Option.map_none]

theorem HasMember.get? (h : HasMember members name value) :
    (object members).get? name = some value := by
  obtain ⟨before, after, rfl, hafter⟩ := h
  -- from the end, none of the members before this one is found
  have hfind : after.reverse.find? (·.1 == name) = none := by
    rw [List.find?_eq_none]
    intro m hm
    simpa using hafter m (List.mem_reverse.mp hm)
  simp [Json.get?, List.find?_append, hfind]

/-- When no name is used twice, every member counts. -/
theorem hasMember_of_mem (hnames : (members.map Prod.fst).Nodup) (h : (name, value) ∈ members) :
    HasMember members name value := by
  obtain ⟨before, after, rfl⟩ := List.append_of_mem h
  refine ⟨before, after, rfl, ?_⟩
  intro m hm hm'
  rw [List.map_append, List.map_cons] at hnames
  have htail := (List.nodup_append.mp hnames).2.1
  exact (List.nodup_cons.mp htail).1 (List.mem_map.mpr ⟨m, hm, hm'⟩)

@[simp] theorem string?_string (s : String) : (string s).string? = some s :=
  rfl

@[simp] theorem array?_array (items : List Json) : (array items).array? = some items :=
  rfl

@[simp] theorem word32?_word (n : UInt32) : (word n).word32? = some n := by
  have hlt : n.toNat < 4294967296 := n.toNat_lt
  simp [word32?, word, nat, natural?, hlt]

end Json

namespace Remark

open Json (HasMember)

/-! ## Objects that stand for a remark -/

/-- A place. -/
inductive EncodesLocation : Json → Location → Prop where
  | object {members : List (String × Json)} {l : Location}
      (hfile : HasMember members "file" (.string l.file))
      (hline : HasMember members "line" (.word l.line))
      (hcolumn : HasMember members "column" (.word l.column)) :
      EncodesLocation (.object members) l

/-- A text, or a place. -/
inductive EncodesContent : Json → Content → Prop where
  | text (s : String) : EncodesContent (.string s) (.text s)
  | place {j : Json} {l : Location} (h : EncodesLocation j l) : EncodesContent j (.place l)

/-- The place to which an argument is pinned among its members. -/
inductive EncodesSite : List (String × Json) → Option Location → Prop where
  | missing {members : List (String × Json)} (h : ∀ m ∈ members, m.1 ≠ "location") :
      EncodesSite members none
  | null {members : List (String × Json)} (h : HasMember members "location" .null) :
      EncodesSite members none
  | place {members : List (String × Json)} {j : Json} {l : Location}
      (h : HasMember members "location" j) (hplace : EncodesLocation j l) :
      EncodesSite members (some l)

/-- An argument. -/
inductive EncodesArgument : Json → Argument → Prop where
  | object {members : List (String × Json)} {value : Json} {a : Argument}
      (hkey : HasMember members "key" (.string a.key)) (hvalue : HasMember members "value" value)
      (hcontent : EncodesContent value a.value) (hsite : EncodesSite members a.location) :
      EncodesArgument (.object members) a

/-- A remark. -/
inductive Encodes : Json → Remark → Prop where
  | object {members : List (String × Json)} {location : Json} {items : List Json} {r : Remark}
      (hpass : HasMember members "pass" (.string r.pass))
      (hkind : HasMember members "kind" (.string r.kind.name))
      (hname : HasMember members "name" (.string r.name))
      (hfunction : HasMember members "function" (.string r.function))
      (hlocation : HasMember members "debug_location" location)
      (hplace : EncodesLocation location r.location)
      (hargs : HasMember members "args" (.array items))
      (hitems : List.Forall₂ EncodesArgument items r.args) : Encodes (.object members) r

/-! ## Reading them -/

theorem Location.ofJson?_of_encodes {j : Json} {l : Location} (h : EncodesLocation j l) :
    Location.ofJson? j = some l := by
  cases h with
  | object hfile hline hcolumn =>
    simp [Location.ofJson?, hfile.get?, hline.get?, hcolumn.get?]

theorem Content.ofJson?_of_encodes {j : Json} {c : Content} (h : EncodesContent j c) :
    Content.ofJson? j = some c := by
  cases h with
  | text s => rfl
  | place h =>
    have hread := Location.ofJson?_of_encodes h
    -- a place is no string
    cases h with
    | object => simp [Content.ofJson?, hread]

theorem optional?_of_encodes {members : List (String × Json)} {site : Option Location}
    (h : EncodesSite members site) :
    Location.optional? (((Json.object members).get? "location").getD .null) = some site := by
  cases h with
  | missing h =>
    rw [Json.get?_eq_none h]
    rfl
  | null h =>
    rw [h.get?]
    rfl
  | place h hplace =>
    have hread := Location.ofJson?_of_encodes hplace
    cases hplace with
    | object => simp [h.get?, Location.optional?, Json.isNull, hread]

theorem Argument.ofJson?_of_encodes {j : Json} {a : Argument} (h : EncodesArgument j a) :
    Argument.ofJson? j = some a := by
  cases h with
  | object hkey hvalue hcontent hsite =>
    simp [Argument.ofJson?, hkey.get?, hvalue.get?, Content.ofJson?_of_encodes hcontent,
      optional?_of_encodes hsite]

/-- An object that stands for a remark is read as that remark. -/
theorem ofJson?_of_encodes {j : Json} {r : Remark} (h : Encodes j r) : ofJson? j = some r := by
  cases h with
  | object hpass hkind hname hfunction hlocation hplace hargs hitems =>
    have hkindRead : Kind.ofJson? (.string r.kind.name) = some r.kind :=
      Kind.ofName?_eq_some_iff.mpr rfl
    have hplaceRead := Location.ofJson?_of_encodes hplace
    have hargsRead := (mapM_eq_some_iff Iff.rfl).mpr
      (hitems.imp fun _ _ => Argument.ofJson?_of_encodes)
    simp [ofJson?, hpass.get?, hkind.get?, hname.get?, hfunction.get?, hlocation.get?, hargs.get?,
      hkindRead, hplaceRead, Argument.listOfJson?, hargsRead]

/-! ## What is written -/

theorem encodesLocation_toJson (l : Location) : EncodesLocation l.toJson l := by
  constructor <;> exact Json.hasMember_of_mem (by simp) (by simp)

theorem encodesContent_toJson (c : Content) : EncodesContent c.toJson c := by
  cases c with
  | text s => exact .text s
  | place l => exact .place (encodesLocation_toJson l)

theorem encodesArgument_toJson (a : Argument) : EncodesArgument a.toJson a := by
  obtain ⟨key, value, location⟩ := a
  cases location with
  | none =>
    refine .object ?_ ?_ (encodesContent_toJson value) (.missing (by simp))
    · exact Json.hasMember_of_mem (by simp) (by simp)
    · exact Json.hasMember_of_mem (by simp) (by simp)
  | some l =>
    refine .object ?_ ?_ (encodesContent_toJson value) (.place ?_ (encodesLocation_toJson l))
    · exact Json.hasMember_of_mem (by simp) (by simp)
    · exact Json.hasMember_of_mem (by simp) (by simp)
    · exact Json.hasMember_of_mem (by simp) (by simp)

/-- The object that is written for a remark stands for it. -/
theorem encodes_toJson (r : Remark) : Encodes r.toJson r := by
  have hitems : List.Forall₂ EncodesArgument (r.args.map Argument.toJson) r.args := by
    rw [List.forall₂_map_left_iff, List.forall₂_same]
    exact fun a _ => encodesArgument_toJson a
  refine .object ?_ ?_ ?_ ?_ ?_ (encodesLocation_toJson r.location) ?_ hitems <;>
    exact Json.hasMember_of_mem (by simp) (by simp)

/-! ## Its text -/

theorem fits_word (depth : Nat) (n : UInt32) : Json.Fits depth (.word n) :=
  .number depth (Nat.lt_trans n.toNat_lt (by decide))

theorem fits_location (depth : Nat) (l : Location) : Json.Fits (depth + 1) l.toJson := by
  refine .object ?_
  simp [fits_word, Json.Fits.string]

theorem fits_content (depth : Nat) (c : Content) : Json.Fits (depth + 1) c.toJson := by
  cases c with
  | text s => exact .string _ s
  | place l => exact fits_location depth l

theorem fits_argument (depth : Nat) (a : Argument) : Json.Fits (depth + 2) a.toJson := by
  refine .object ?_
  cases h : a.location with
  | none => simp [fits_content, Json.Fits.string]
  | some l => simp [fits_content, fits_location, Json.Fits.string]

/-- The object of a remark holds no fraction, and nests four deep at most. -/
theorem fits_toJson (depth : Nat) (r : Remark) : Json.Fits (depth + 4) r.toJson := by
  have hargs : Json.Fits (depth + 3) (.array (r.args.map Argument.toJson)) := by
    refine .array ?_
    intro item hitem
    obtain ⟨a, -, rfl⟩ := List.mem_map.mp hitem
    exact fits_argument depth a
  refine .object ?_
  simp [fits_location, Json.Fits.string, hargs]

/-! ## Lists of remarks -/

/-- An array of remarks nests little enough to be read again. -/
theorem fits_remarks (remarks : List Remark) :
    Json.Fits Json.maxDepth (.array (remarks.map toJson)) := by
  refine .array ?_
  intro item hitem
  obtain ⟨r, -, rfl⟩ := List.mem_map.mp hitem
  exact fits_toJson 122 r

/-- The objects of remarks are read as these remarks, one by one. -/
theorem mapM_ofJson?_toJson (remarks : List Remark) :
    (remarks.map toJson).mapM ofJson? = some remarks := by
  refine (mapM_eq_some_iff Iff.rfl).mpr ?_
  rw [List.forall₂_map_left_iff, List.forall₂_same]
  exact fun r _ => ofJson?_of_encodes (encodes_toJson r)

/-! ## Round trip -/

/-- Writing a remark and reading it again gives the remark, as a value and as a
    text of either form. So reading, writing and reading again is reading once,
    whatever the value; and all objects that stand for a remark are read as it,
    other members, their order and a place that is `null` notwithstanding. -/
theorem remarks_read_back :
    (∀ r : Remark, ofJson? r.toJson = some r ∧
      (Json.ofChars? r.toJson.render.toList).bind ofJson? = some r ∧
      (Json.ofChars? r.toJson.renderIndented.toList).bind ofJson? = some r) ∧
    (∀ (j : Json) (r : Remark), ofJson? j = some r → ofJson? r.toJson = ofJson? j) ∧
    (∀ (j : Json) (r : Remark), Encodes j r → ofJson? j = some r) := by
  have hback : ∀ r : Remark, ofJson? r.toJson = some r :=
    fun r => ofJson?_of_encodes (encodes_toJson r)
  refine ⟨fun r => ⟨hback r, ?_, ?_⟩, ?_, fun j r => ofJson?_of_encodes⟩
  · rw [Json.ofChars?_render (fits_toJson 123 r), Option.bind_some, hback]
  · rw [Json.ofChars?_renderIndented (fits_toJson 123 r), Option.bind_some, hback]
  · intro j r h
    rw [h, hback]

/-- A remark with an argument that is pinned to no place. -/
def missedInline : Remark :=
  ⟨"inline", .missed, "NoDefinition", "main", ⟨"a.c", 4, 0⟩, [⟨"Callee", .text "f\n\"", none⟩]⟩

/-- Its place and its argument with an unknown member each; the argument's own
    place is `null`. -/
def missedInlinePlace : Json :=
  .object [("column", .word 0), ("end", .null), ("line", .word 4), ("file", .string "a.c")]

def missedInlineArgument : Json :=
  .object [("location", .null), ("value", .string "f\n\""), ("note", .bool true),
    ("key", .string "Callee")]

/-- The remark in another order, again with an unknown member. -/
def missedInlineObject : Json :=
  .object [("args", .array [missedInlineArgument]), ("function", .string "main"),
    ("pass", .string "inline"), ("severity", .array []), ("debug_location", missedInlinePlace),
    ("name", .string "NoDefinition"), ("kind", .string "Missed")]

theorem missedInline_read_back :
    Encodes missedInlineObject missedInline ∧ ofJson? missedInlineObject = some missedInline ∧
      ofJson? missedInline.toJson = ofJson? missedInlineObject := by
  have hplace : EncodesLocation missedInlinePlace missedInline.location := by
    constructor <;> exact Json.hasMember_of_mem (by simp) (by simp [missedInline])
  have hargument : EncodesArgument missedInlineArgument ⟨"Callee", .text "f\n\"", none⟩ := by
    refine .object ?_ ?_ (.text "f\n\"") (.null ?_) <;>
      exact Json.hasMember_of_mem (by simp) (by simp)
  have hencodes : Encodes missedInlineObject missedInline := by
    refine .object ?_ ?_ ?_ ?_ ?_ hplace ?_ (.cons hargument .nil) <;>
      exact Json.hasMember_of_mem (by simp) (by simp [missedInline, Kind.name])
  have hread := remarks_read_back.2.2 missedInlineObject missedInline hencodes
  exact ⟨hencodes, hread, remarks_read_back.2.1 missedInlineObject missedInline hread⟩

end Remark

end CompilerRemarks
