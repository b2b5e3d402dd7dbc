/-
  CompilerRemarks.Remark.Document

  Reading one document of an optimization record. Its first line names the
  kind of remark, the lines after it are a YAML mapping, and a line of three
  points may end it. What is not a complete remark is rejected.
-/
import CompilerRemarks.Remark.Basic
import CompilerRemarks.Yaml.Document

namespace CompilerRemarks.Remark

open Yaml (Value)

/-! ## Lines -/

/-- What the first line of a document starts with. -/
def marker : List Char := "--- !".toList

/-- The line that ends a document. -/
def terminator : String := "..."

/-- The key under which a document names a place. -/
def locationKey : String := "DebugLoc"

/-- The rest of a text after a given start. -/
def dropStart? : List Char → List Char → Option (List Char)
  | [], rest => some rest
  | a :: start, b :: rest => if a == b then dropStart? start rest else none
  | _ :: _, [] => none

/-- The kind that a document's first line names. -/
def Kind.ofMarker? (line : String) : Option Kind :=
  (dropStart? marker line.toList).bind fun tag =>
    Kind.ofName? (String.ofList (Text.trimEnd tag))

/-- The lines of a document's body, without the line that ends it. -/
def bodyLines (lines : List String) : List String :=
  match lines.getLast? with
  | some last => if Text.trimmedEnd last == terminator then lines.dropLast else lines
  | none => []

/-- The text of a document's body. -/
def bodyText (lines : List String) : List Char :=
  ("\n".intercalate (bodyLines lines)).toList

/-! ## Fields -/

/-- The text of a scalar: a string, a number or a boolean, which may be tagged. -/
def scalarText? : Value → Option String
  | .string s => some s
  | .number n => some n.text
  | .bool true => some "true"
  | .bool false => some "false"
  | .tagged _ v => scalarText? v
  | .null | .sequence _ | .mapping _ => none

/-- A line or column: an integer of 32 bits, or a string that spells one. -/
def unsigned? : Value → Option UInt32
  | .number (.natural n) => if n < 4294967296 then some n.toUInt32 else none
  | .string s => Text.word32? (Text.trim s.toList)
  | _ => none

/-- A place: a mapping with a file that is not empty, a line and a column. -/
def Location.ofYaml? (v : Value) : Option Location := do
  let entries ← v.mapping?
  let file ← (Value.lookup? entries "File").bind scalarText?
  if file == "" then none
  let line ← (Value.lookup? entries "Line").bind unsigned?
  let column ← (Value.lookup? entries "Column").bind unsigned?
  return ⟨file, line, column⟩

/-- The value of an argument: a mapping must be a place, and what has no text
    counts as empty. -/
def Content.ofYaml? (v : Value) : Option Content :=
  match v with
  | .mapping _ => (Location.ofYaml? v).map .place
  | _ => some (.text ((scalarText? v).getD ""))

/-- An argument: one entry, which a second one may pin to a place. -/
def Argument.ofYaml? (entries : List (Value × Value)) : Option Argument :=
  match entries with
  | [(key, value)] => do
    return ⟨← scalarText? key, ← Content.ofYaml? value, none⟩
  | [(key, value), (extra, site)] => do
    let key ← scalarText? key
    let value ← Content.ofYaml? value
    if extra.string? == some locationKey && key != locationKey then
      return ⟨key, value, some (← Location.ofYaml? site)⟩
    else none
  | _ => none

/-- The arguments: a list of mappings, or nothing at all. -/
def Argument.listOfYaml? : Value → Option (List Argument)
  | .sequence items => items.mapM fun item => item.mapping?.bind Argument.ofYaml?
  | .null => some []
  | _ => none

/-! ## Documents -/

/-- The remark of a body's value. -/
def ofYaml? (kind : Kind) (v : Value) : Option Remark := do
  let entries ← v.mapping?
  let location ← (Value.lookup? entries locationKey).bind Location.ofYaml?
  let function ← (Value.lookup? entries "Function").bind scalarText?
  let name ← (Value.lookup? entries "Name").bind scalarText?
  let pass ← (Value.lookup? entries "Pass").bind scalarText?
  let args ← (Value.lookup? entries "Args").bind Argument.listOfYaml?
  return ⟨pass, kind, name, function, location, args⟩

/-- The remark of a document given as lines. -/
def decode? (lines : List String) : Option Remark :=
  match lines with
  | [] => none
  | first :: body => do
    let kind ← Kind.ofMarker? first
    let value ← Value.ofText? (bodyText body)
    ofYaml? kind value

/-- A document is decoded from the characters of its lines. -/
theorem decode?_cons (first : String) (body : List String) :
    decode? (first :: body) = (Kind.ofMarker? first).bind fun kind =>
      (Value.ofText? (['\n'].intercalate ((bodyLines body).map String.toList))).bind
        (ofYaml? kind) := by
  rw [decode?, bodyText, String.toList_intercalate]
  rfl

end CompilerRemarks.Remark
