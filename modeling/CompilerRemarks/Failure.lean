/-
  CompilerRemarks.Failure

  Why a request could not be served, and the text that says so.
-/
import CompilerRemarks.Files.Basic
import CompilerRemarks.Text.Visible

namespace CompilerRemarks

/-- A failed request. -/
inductive Failure where
  /-- A file could not be read. -/
  | file (e : FileError)
  /-- A text is not JSON, or not JSON of the expected form. -/
  | json
  /-- A text is not TOML, or a setting has the wrong type. -/
  | toml
  /-- Settings that make no sense. -/
  | settings (why : String)
  /-- A program could not be started. -/
  | spawn (program : String) (e : FileError)
  /-- A program is not installed. -/
  | toolchainMissing (program : String)
  /-- A compile command without any word. -/
  | emptyCommand (file : Path)
  /-- The AST tool printed nothing useful. -/
  | astTool (why : String)
  deriving DecidableEq, Repr

namespace Failure

/-- The text of a failure. -/
def message : Failure → String
  | .file e => "IO error: " ++ e.message
  | .json => "JSON error"
  | .toml => "Config parse error"
  | .settings why => "Invalid configuration: " ++ why
  | .spawn program e => "Failed to spawn `" ++ program ++ "`: " ++ e.message
  | .toolchainMissing program => "Executable not found: " ++ program
  | .emptyCommand source => "Compile command has no program: " ++ Text.quoted source.text
  | .astTool why => "AST tool failed: " ++ why

/-- The cause below a failure, if it has one of its own. -/
def cause? : Failure → Option FileError
  | .file e => some e
  | .spawn _ e => some e
  | _ => none

/-- The texts of a failure and of its cause. -/
def chain (f : Failure) : List String :=
  f.message :: (f.cause?.map FileError.message).toList

end Failure

end CompilerRemarks
