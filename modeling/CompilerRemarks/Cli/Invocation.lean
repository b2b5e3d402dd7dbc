/-
  CompilerRemarks.Cli.Invocation

  What a command line asks for.
-/
import CompilerRemarks.Cli.Reading
import CompilerRemarks.Source

namespace CompilerRemarks.Cli

/-! ## Requests -/

/-- What every command can be given. -/
structure Globals where
  /-- The workspace; the working directory if none is given. -/
  workspace : Option Path
  /-- The file of the settings; that of the workspace if none is given. -/
  config : Option Path
  /-- A compile command to use instead of looking one up. -/
  compileCommand : Option String
  /-- Where that command runs; the workspace if none is given. -/
  directory : Option Path
  deriving DecidableEq, Repr

/-- How the remarks of a file are printed. -/
inductive Format where
  | text
  | json
  | diagnostics
  deriving DecidableEq, Repr

/-- Lines and columns of a range as they were given. -/
structure Span where
  startLine : UInt32
  endLine : UInt32
  startColumn : Option UInt32
  endColumn : Option UInt32
  /-- Whether lines and columns count from zero. -/
  zeroBased : Bool
  deriving DecidableEq, Repr

/-- The range of a span: columns left out take in whole lines. -/
def Span.range (s : Span) : Range :=
  if s.zeroBased then
    Range.ofEditor s.startLine (s.startColumn.getD 0) s.endLine (s.endColumn.getD maxWord)
  else
    let whole := Range.lines s.startLine s.endLine
    ⟨⟨whole.first.line, s.startColumn.getD whole.first.column⟩,
      ⟨whole.last.line, s.endColumn.getD whole.last.column⟩⟩

/-- What is to be done. -/
inductive Task where
  /-- Print the compile command of a file. -/
  | resolve (file : Path)
  /-- Print every remark of a file. -/
  | remarks (file : Path) (format : Format)
  /-- Print the remarks in a range, of one pass if it is given. -/
  | range (file : Path) (span : Span) (pass : Option String) (asJson : Bool)
  /-- Print the functions and loops of a file. -/
  | anchors (file : Path) (asJson : Bool)
  deriving DecidableEq, Repr

/-- A command line that can be run. -/
structure Invocation where
  globals : Globals
  task : Task
  deriving DecidableEq, Repr

/-! ## From readings -/

namespace Reading

/-- The path given for a parameter. -/
def path? (r : Reading) (p : Parameter) : Option Path :=
  match r.found.lookup p with
  | some (.path path) => some path
  | _ => none

/-- The text given for a parameter. -/
def text? (r : Reading) (p : Parameter) : Option String :=
  match r.found.lookup p with
  | some (.text s) => some s
  | _ => none

/-- The number given for a parameter. -/
def number? (r : Reading) (p : Parameter) : Option UInt32 :=
  match r.found.lookup p with
  | some (.number n) => some n
  | _ => none

/-- A parameter that must be given. -/
def require {α : Type} (value : Option α) : Except Usage α :=
  match value with
  | some a => .ok a
  | none => .error .missingRequired

/-- Parameters that exclude each other come before those that were left out;
    a directory needs a compile command beside it. -/
def check (r : Reading) : Except Usage Unit :=
  if r.has .json && r.has .diagnostics then .error .conflict
  else if r.has .directory && !r.has .compileCommand then .error .missingRequired
  else .ok ()

/-- What a command is asked to do. -/
def task (r : Reading) : Verb → Except Usage Task
  | .resolve => do return .resolve (← require (r.path? .file))
  | .remarks => do
    let file ← require (r.path? .file)
    return .remarks file (if r.has .diagnostics then .diagnostics
      else if r.has .json then .json else .text)
  | .range => do
    let file ← require (r.path? .file)
    let startLine ← require (r.number? .startLine)
    let endLine ← require (r.number? .endLine)
    return .range file ⟨startLine, endLine, r.number? .startColumn, r.number? .endColumn,
      r.has .zeroBased⟩ (r.text? .pass) (r.has .json)
  | .anchors => do
    let file ← require (r.path? .file)
    return .anchors file (r.has .json)

/-- The globals of a command line: what stands behind the command wins over
    what stands before it. -/
def globals (before behind : Reading) : Globals :=
  ⟨(behind.path? .workspace).or (before.path? .workspace),
    (behind.path? .config).or (before.path? .config),
    (behind.text? .compileCommand).or (before.text? .compileCommand),
    (behind.path? .directory).or (before.path? .directory)⟩

end Reading

/-! ## Command lines -/

/-- Reads a command line. What stands behind the command is checked before
    what stands in front of it. -/
def Invocation.parse (words : List String) : Except Usage Invocation := do
  let (before, command) ← Reading.scan none {} words
  match command with
  | none =>
    let before ← before.settle
    if before.found.isEmpty then .error .nothingGiven else .error .missingCommand
  | some (verb, rest) =>
    let (behind, _) ← Reading.scan (some verb) {} rest
    let behind ← behind.settle
    behind.check
    let task ← behind.task verb
    let before ← before.settle
    before.check
    return ⟨Reading.globals before behind, task⟩

end CompilerRemarks.Cli
