/-
  CompilerRemarks.Remark.Basic

  Optimization remarks: what a compiler says it did, or failed to do, at a
  place in the source.
-/
import CompilerRemarks.Source
import CompilerRemarks.Text.Blank

namespace CompilerRemarks

namespace Remark

/-- The outcome that a remark reports. -/
inductive Kind where
  /-- A transformation that was made. -/
  | passed
  /-- A transformation that was not made. -/
  | missed
  /-- A finding of an analysis. -/
  | analysis
  deriving DecidableEq, Repr

/-- The name of a kind, which is also its document tag. -/
def Kind.name : Kind → String
  | .passed => "Passed"
  | .missed => "Missed"
  | .analysis => "Analysis"

/-- The kind with this name. -/
def Kind.ofName? (s : String) : Option Kind :=
  if s == "Passed" then some .passed
  else if s == "Missed" then some .missed
  else if s == "Analysis" then some .analysis
  else none

/-- A place in a file. -/
structure Location where
  file : String
  line : UInt32
  column : UInt32
  deriving DecidableEq, Repr

/-- The place without its file. -/
def Location.position (l : Location) : Position :=
  ⟨l.line, l.column⟩

/-- The place as `file:line:column`. -/
def Location.text (l : Location) : String :=
  l.file ++ ":" ++ Text.decimal l.line.toNat ++ ":" ++ Text.decimal l.column.toNat

/-- What an argument of a remark holds. -/
inductive Content where
  | text (s : String)
  | place (l : Location)
  deriving DecidableEq, Repr

/-- An argument of a remark. Names repeat freely; an argument may be pinned
    to the place where the thing it names is defined. -/
structure Argument where
  key : String
  value : Content
  location : Option Location
  deriving DecidableEq, Repr

end Remark

/-- One optimization event. -/
structure Remark where
  pass : String
  kind : Remark.Kind
  name : String
  function : String
  location : Remark.Location
  args : List Remark.Argument
  deriving DecidableEq, Repr

namespace Remark

/-- The text of an argument that holds text. -/
def Content.text? : Content → Option String
  | .text s => some s
  | .place _ => none

/-- The message for a reader: the texts of the arguments, trimmed, joined by
    blanks, empty ones left out. -/
def message (r : Remark) : String :=
  " ".intercalate
    (((r.args.filterMap (·.value.text?)).map Text.trimmed).filter (· ≠ ""))

end Remark

end CompilerRemarks
