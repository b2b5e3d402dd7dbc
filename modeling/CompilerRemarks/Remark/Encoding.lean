/-
  CompilerRemarks.Remark.Encoding

  Remarks as JSON. A record is written as an object with its fields in order
  and read from an object, other members being ignored, or from an array of
  its fields in that order.
-/
import CompilerRemarks.Remark.Basic
import CompilerRemarks.Json.Basic

namespace CompilerRemarks

/-! ## Writing -/

namespace Remark

/-- A place as an object. -/
def Location.toJson (l : Location) : Json :=
  .object [("file", .string l.file), ("line", .word l.line), ("column", .word l.column)]

/-- A text as a string, a place as an object. -/
def Content.toJson : Content → Json
  | .text s => .string s
  | .place l => l.toJson

/-- An argument; its place is left out when there is none. -/
def Argument.toJson (a : Argument) : Json :=
  .object ([("key", .string a.key), ("value", a.value.toJson)] ++
    (a.location.map fun l => ("location", l.toJson)).toList)

/-- A remark as an object. -/
def toJson (r : Remark) : Json :=
  .object [("pass", .string r.pass), ("kind", .string r.kind.name), ("name", .string r.name),
    ("function", .string r.function), ("debug_location", r.location.toJson),
    ("args", .array (r.args.map Argument.toJson))]

end Remark

/-- A position as an object. -/
def Position.toJson (p : Position) : Json :=
  .object [("line", .word p.line), ("column", .word p.column)]

/-- A range as an object. -/
def Range.toJson (r : Range) : Json :=
  .object [("start", r.first.toJson), ("end", r.last.toJson)]

/-! ## Reading -/

namespace Remark

/-- A place from an object or from `[file, line, column]`. -/
def Location.ofJson? : Json → Option Location
  | .object members => do
    let j := Json.object members
    let file ← (← j.get? "file").string?
    let line ← (← j.get? "line").word32?
    let column ← (← j.get? "column").word32?
    return ⟨file, line, column⟩
  | .array [file, line, column] => do
    return ⟨← file.string?, ← line.word32?, ← column.word32?⟩
  | _ => none

/-- A string is a text; anything else must be a place. -/
def Content.ofJson? : Json → Option Content
  | .string s => some (.text s)
  | j => (Location.ofJson? j).map .place

/-- A place that may be `null`. -/
def Location.optional? (j : Json) : Option (Option Location) :=
  if j.isNull then some none else (Location.ofJson? j).map some

/-- An argument; a missing place is none. -/
def Argument.ofJson? : Json → Option Argument
  | .object members => do
    let j := Json.object members
    let key ← (← j.get? "key").string?
    let value ← Content.ofJson? (← j.get? "value")
    let location ← Location.optional? ((j.get? "location").getD .null)
    return ⟨key, value, location⟩
  | .array [key, value] => do
    return ⟨← key.string?, ← Content.ofJson? value, none⟩
  | .array [key, value, location] => do
    return ⟨← key.string?, ← Content.ofJson? value, ← Location.optional? location⟩
  | _ => none

/-- A kind by its name, or as an object of that one name with `null`. -/
def Kind.ofJson? : Json → Option Kind
  | .string s => Kind.ofName? s
  | .object [(name, .null)] => Kind.ofName? name
  | _ => none

/-- The arguments of a remark. -/
def Argument.listOfJson? (j : Json) : Option (List Argument) :=
  j.array?.bind fun items => items.mapM Argument.ofJson?

/-- A remark from an object or from the array of its fields. -/
def ofJson? : Json → Option Remark
  | .object members => do
    let j := Json.object members
    let pass ← (← j.get? "pass").string?
    let kind ← Kind.ofJson? (← j.get? "kind")
    let name ← (← j.get? "name").string?
    let function ← (← j.get? "function").string?
    let location ← Location.ofJson? (← j.get? "debug_location")
    let args ← Argument.listOfJson? (← j.get? "args")
    return ⟨pass, kind, name, function, location, args⟩
  | .array [pass, kind, name, function, location, args] => do
    return ⟨← pass.string?, ← Kind.ofJson? kind, ← name.string?, ← function.string?,
      ← Location.ofJson? location, ← Argument.listOfJson? args⟩
  | _ => none

end Remark

end CompilerRemarks
