/-
  CompilerRemarks.Remark.Diagnostic

  Remarks as editor diagnostics: positions count from zero, and the kind of
  a remark becomes a severity.
-/
import CompilerRemarks.Remark.Basic
import CompilerRemarks.Json.Basic

namespace CompilerRemarks

/-- How an editor marks a diagnostic. -/
inductive Severity where
  | information
  | warning
  | error
  deriving DecidableEq, Repr

/-- The name of a severity. -/
def Severity.name : Severity → String
  | .information => "information"
  | .warning => "warning"
  | .error => "error"

/-- What was done is information, what was found a warning, what was not done
    an error. -/
def Severity.ofKind : Remark.Kind → Severity
  | .passed => .information
  | .analysis => .warning
  | .missed => .error

/-- A remark in editor coordinates. -/
structure Diagnostic where
  line : UInt32
  column : UInt32
  severity : Severity
  message : String
  detail : String
  source : String
  deriving DecidableEq, Repr

/-- The diagnostic of a remark. -/
def Diagnostic.ofRemark (r : Remark) : Diagnostic where
  line := wordPred r.location.line
  column := wordPred r.location.column
  severity := .ofKind r.kind
  message := r.kind.name ++ ": " ++ r.pass
  detail := r.message
  source := r.name

/-- A diagnostic as an object. -/
def Diagnostic.toJson (d : Diagnostic) : Json :=
  .object [("line", .word d.line), ("column", .word d.column),
    ("severity", .string d.severity.name), ("message", .string d.message),
    ("detail", .string d.detail), ("source", .string d.source)]

end CompilerRemarks
