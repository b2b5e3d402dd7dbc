/-
  CompilerRemarks.Settings.Basic

  The settings of remark collection, their defaults and what makes them
  valid.
-/
import CompilerRemarks.Path.Basic
import CompilerRemarks.Text.Blank

namespace CompilerRemarks

/-- How functions and loops are found in a source file. -/
inductive Locator where
  /-- By scanning the text. -/
  | text
  /-- From a compiler's dump of the syntax tree. -/
  | dump
  deriving DecidableEq, Repr

/-- The name of a locator in a configuration. -/
def Locator.name : Locator → String
  | .text => "regex"
  | .dump => "ast-tool"

/-- The locator of a name. -/
def Locator.ofName? (name : String) : Option Locator :=
  [Locator.text, Locator.dump].find? (·.name == name)

/-- The settings of remark collection. -/
structure Settings where
  /-- The shell that runs compile commands. -/
  shell : String := "bash"
  /-- What is appended to a compile command. -/
  recordFlags : List String :=
    ["-c", "-o", "/dev/null", "-fsave-optimization-record", "-foptimization-record-file=>(cat)"]
  /-- When to give up on a compiler, in seconds. -/
  timeout : Option Nat := some 300
  /-- What a build directory's name contains. -/
  buildMarkers : List String := ["build", "out"]
  /-- The directory of the compile database. -/
  databaseDirectory : Option Path := none
  /-- How the names of source files end. -/
  sourceEndings : List String := [".c", ".cpp", ".cc", ".c++", ".cxx", ".cp", ".m"]
  /-- How functions and loops are found. -/
  locator : Locator := .text
  /-- The compiler that dumps syntax trees. -/
  astTool : String := "clang"
  deriving DecidableEq, Repr

namespace Settings

/-- Whether a text holds nothing but white space. -/
def isBlank (s : String) : Bool :=
  (Text.trim s.toList).isEmpty

/-- What is wrong with the settings, if anything. -/
def problem? (s : Settings) : Option String :=
  if isBlank s.shell then some "shell must not be empty"
  else if s.timeout == some 0 then some "timeout_secs must be > 0"
  else if s.sourceEndings.isEmpty then some "source_extensions must not be empty"
  else if s.locator == .dump && isBlank s.astTool then
    some "ast_tool must be set for the ast-tool locator"
  else none

/-- A text with its ASCII letters in lower case. -/
def folded (s : String) : List Char :=
  s.toList.map Char.toLower

/-- Whether the name of a file ends like that of a source file, in either
    case of letters. -/
def supports (s : Settings) (file : Path) : Bool :=
  s.sourceEndings.any fun ending => (folded ending).isSuffixOf (folded file.text)

end Settings

end CompilerRemarks
