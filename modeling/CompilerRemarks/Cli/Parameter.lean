/-
  CompilerRemarks.Cli.Parameter

  The commands of the command line and the parameters that each accepts.
-/
import CompilerRemarks.Path.Basic
import CompilerRemarks.Text.Numeral

namespace CompilerRemarks.Cli

/-! ## Refusals -/

/-- Why a command line is not run. -/
inductive Usage where
  /-- An option that no command has here, or one argument too many. -/
  | unknownArgument
  /-- A word where a command was expected. -/
  | unknownCommand
  /-- A parameter that the command needs was left out. -/
  | missingRequired
  /-- Options, but no command. -/
  | missingCommand
  /-- Nothing was given at all. -/
  | nothingGiven
  /-- A value that is left out, or empty where a path is expected. -/
  | missingValue
  /-- A value that is no number, or out of bounds. -/
  | notANumber
  /-- A value for a switch. -/
  | unneededValue
  /-- A parameter given twice, or two that exclude each other. -/
  | conflict
  /-- Help was asked for. -/
  | help
  /-- The version was asked for. -/
  | version
  deriving DecidableEq, Repr

/-! ## Commands -/

/-- What the command line can be asked to do. -/
inductive Verb where
  | resolve
  | remarks
  | range
  | anchors
  deriving DecidableEq, Repr

namespace Verb

/-- The name of a command. -/
def name : Verb → String
  | .resolve => "resolve"
  | .remarks => "remarks"
  | .range => "range"
  | .anchors => "anchors"

/-- The command of a name. -/
def ofName? (s : String) : Option Verb :=
  [Verb.resolve, .remarks, .range, .anchors].find? (·.name == s)

/-- The word that asks for help on a command. -/
def helpName : String := "help"

/-- Whether a word names a command, or help on one. -/
def isName (s : String) : Bool :=
  (ofName? s).isSome || s == helpName

end Verb

/-! ## Parameters -/

/-- A parameter of some command. -/
inductive Parameter where
  | workspace
  | config
  | compileCommand
  | directory
  | verbose
  | help
  | version
  /-- The file, the only parameter without a name. -/
  | file
  | json
  | diagnostics
  | startLine
  | endLine
  | startColumn
  | endColumn
  | pass
  | zeroBased
  deriving DecidableEq, Repr

/-- What a parameter takes. -/
inductive Form where
  | path
  | text
  | number
  /-- Nothing; it may be given once. -/
  | switch
  /-- Nothing; it may be given any number of times. -/
  | tally
  /-- Nothing; asking for it ends the reading. -/
  | request (u : Usage)
  deriving DecidableEq, Repr

/-- Whether a parameter of this form is followed by a value. -/
def Form.takesValue : Form → Bool
  | .path => true
  | .text => true
  | .number => true
  | .switch => false
  | .tally => false
  | .request _ => false

namespace Parameter

/-- What a parameter takes. -/
def form : Parameter → Form
  | .workspace => .path
  | .config => .path
  | .compileCommand => .text
  | .directory => .path
  | .verbose => .tally
  | .help => .request .help
  | .version => .request .version
  | .file => .path
  | .json => .switch
  | .diagnostics => .switch
  | .startLine => .number
  | .endLine => .number
  | .startColumn => .number
  | .endColumn => .number
  | .pass => .text
  | .zeroBased => .switch

/-- The name of a parameter behind two dashes. -/
def name? : Parameter → Option String
  | .workspace => some "workspace"
  | .config => some "config"
  | .compileCommand => some "compile-command"
  | .directory => some "directory"
  | .verbose => some "verbose"
  | .help => some "help"
  | .version => some "version"
  | .file => none
  | .json => some "json"
  | .diagnostics => some "diagnostics"
  | .startLine => some "start-line"
  | .endLine => some "end-line"
  | .startColumn => some "start-column"
  | .endColumn => some "end-column"
  | .pass => some "pass"
  | .zeroBased => some "zero-based"

/-- The letter of a parameter behind one dash. -/
def letter? : Parameter → Option Char
  | .workspace => some 'w'
  | .verbose => some 'v'
  | .help => some 'h'
  | .version => some 'V'
  | _ => none

/-- The parameters that stand before or after the command. -/
def shared : List Parameter :=
  [.workspace, .config, .compileCommand, .directory, .verbose, .help]

/-- The named parameters before a command (`none`) or after it. -/
def named : Option Verb → List Parameter
  | none => shared ++ [.version]
  | some .resolve => shared
  | some .remarks => shared ++ [.json, .diagnostics]
  | some .range => shared ++
      [.startLine, .endLine, .startColumn, .endColumn, .pass, .zeroBased, .json]
  | some .anchors => shared ++ [.json]

/-- The parameter of a name. -/
def ofName? (place : Option Verb) (name : String) : Option Parameter :=
  (named place).find? (·.name? == some name)

/-- The parameter of a letter. -/
def ofLetter? (place : Option Verb) (letter : Char) : Option Parameter :=
  (named place).find? (·.letter? == some letter)

end Parameter

/-! ## Values -/

/-- The value of a parameter. -/
inductive Value where
  | path (p : Path)
  | text (s : String)
  | number (n : UInt32)
  /-- The parameter was given. -/
  | present
  deriving DecidableEq, Repr

/-- An unsigned number of 32 bits; it may have a sign, and minus zero is
    zero. -/
def number? : List Char → Option UInt32
  | '-' :: rest => ((Text.digits? 10 rest).filter (· == 0)).map (·.toUInt32)
  | s => Text.word32? s

/-- Reads the value of a parameter. -/
def Form.read (form : Form) (s : String) : Except Usage Value :=
  match form with
  | .path => if s.isEmpty then .error .missingValue else .ok (.path ⟨s⟩)
  | .text => .ok (.text s)
  | .number =>
    match number? s.toList with
    | some n => .ok (.number n)
    | none => .error .notANumber
  | .switch => .ok .present
  | .tally => .ok .present
  | .request u => .error u

end CompilerRemarks.Cli
