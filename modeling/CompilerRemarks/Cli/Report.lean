/-
  CompilerRemarks.Cli.Report

  What the command line prints.
-/
import CompilerRemarks.Anchor.Basic
import CompilerRemarks.Command
import CompilerRemarks.Json.Printer
import CompilerRemarks.Remark.Diagnostic
import CompilerRemarks.Remark.Encoding
import CompilerRemarks.Remark.Query
import CompilerRemarks.Session.Analysis
import CompilerRemarks.Cli.Invocation

namespace CompilerRemarks.Cli

/-! ## Colours -/

/-- The colours of a terminal. -/
inductive Colour where
  | red
  | yellow
  | brightBlack
  | brightRed
  | brightGreen
  | brightYellow
  | brightBlue
  | brightMagenta
  | brightCyan
  deriving DecidableEq, Repr

namespace Colour

/-- The number of a foreground colour. -/
def code : Colour → Nat
  | .red => 31
  | .yellow => 33
  | .brightBlack => 90
  | .brightRed => 91
  | .brightGreen => 92
  | .brightYellow => 93
  | .brightBlue => 94
  | .brightMagenta => 95
  | .brightCyan => 96

/-- A text in a colour, then the default colour again. -/
def paint (c : Colour) (s : String) : String :=
  "\x1b[" ++ Text.decimal c.code ++ "m" ++ s ++ "\x1b[39m"

end Colour

/-! ## Reports -/

/-- What running a command line leaves behind. -/
structure Report where
  /-- The lines of standard output. -/
  output : List String := []
  /-- The lines of standard error. -/
  errors : List String := []
  /-- What went wrong and why, the outermost message first; empty if nothing
      did. -/
  failure : List String := []
  deriving DecidableEq, Repr

namespace Report

/-- Lines as one text, each ended. -/
def textOf (lines : List String) : String :=
  String.join (lines.map (· ++ "\n"))

/-- A run that went wrong. -/
def failed (chain : List String) : Report :=
  { failure := chain }

/-- A run that printed some lines. -/
def printed (lines : List String) : Report :=
  { output := lines }

/-- A value as indented JSON. -/
def json (j : Json) : List String :=
  [j.renderIndented]

/-- Puts lines of standard error in front. -/
def under (errors : List String) (r : Report) : Report :=
  { r with errors := errors ++ r.errors }

end Report

/-! ## Lines -/

/-- A complaint of the compiler. -/
def complaintLine (s : String) : String :=
  Colour.red.paint s

/-- A warning. -/
def warningLine (s : String) : String :=
  Colour.yellow.paint "!" ++ " " ++ s

/-- A field of a compile command. -/
def fieldLine (name value : String) : String :=
  Colour.brightBlack.paint name ++ " " ++ value

/-- The lines of a compile command. -/
def commandLines (c : Command) : List String :=
  [fieldLine "directory:" c.directory.text, fieldLine "file:" c.file.text,
    fieldLine "command:" c.line]

/-- The colour of a kind of remark. -/
def kindColour : Remark.Kind → Colour
  | .passed => .brightGreen
  | .missed => .brightRed
  | .analysis => .brightYellow

/-- The line of a remark. -/
def remarkLine (r : Remark) : String :=
  Colour.brightBlack.paint r.location.text ++ " " ++ (kindColour r.kind).paint r.kind.name ++ " " ++
    Colour.brightCyan.paint r.pass ++ "/" ++ r.name ++ ": " ++ r.message

/-- The line of a label and the number of remarks behind it. -/
def choiceLine (g : Grouped) (label : String) : String :=
  "  " ++ Colour.brightCyan.paint label ++ " (" ++ Text.decimal (g.select label).length ++ ")"

/-- A line that says that there is nothing to show. -/
def nothingLine (s : String) : String :=
  Colour.brightRed.paint "✗" ++ " " ++ s

/-- The colour of a kind of anchor. -/
def anchorColour : Anchor.Kind → Colour
  | .function => .brightBlue
  | .loop => .brightMagenta

/-- The line of an anchor. -/
def anchorLine (a : Anchor) : String :=
  (anchorColour a.kind).paint a.kind.name ++ " " ++ a.name.getD "-" ++ " " ++
    Colour.brightBlack.paint a.range.text

/-! ## Answers -/

/-- Remarks as an array. -/
def remarksJson (remarks : List Remark) : Json :=
  .array (remarks.map Remark.toJson)

/-- Grouped remarks as an object. -/
def groupedJson (g : Grouped) : Json :=
  .object [("all", remarksJson g.all),
    ("by_pass", .object (g.byPass.map fun (pass, group) => (pass, remarksJson group)))]

/-- The lines of all remarks of a file. -/
def remarksLines (file : Path) (format : Format) (remarks : List Remark) : List String :=
  match format with
  | .diagnostics => Report.json (.array (remarks.map fun r => (Diagnostic.ofRemark r).toJson))
  | .json => Report.json (remarksJson remarks)
  | .text =>
    if remarks.isEmpty then [nothingLine ("No remarks for " ++ file.text)]
    else remarks.map remarkLine

/-- The lines of the remarks behind a label. -/
def selectionLines (g : Grouped) (label : String) (asJson : Bool) : List String :=
  let remarks := g.select label
  if asJson then Report.json (remarksJson remarks)
  else if remarks.isEmpty then
    [nothingLine ("No " ++ Colour.brightCyan.paint label ++ " remarks in range")]
  else remarks.map remarkLine

/-- The lines of grouped remarks: the range, the labels, the remarks. -/
def groupedLines (g : Grouped) (range : Range) (asJson : Bool) : List String :=
  if asJson then Report.json (groupedJson g)
  else [Colour.brightBlack.paint "Range" ++ " " ++ range.text] ++ g.choices.map (choiceLine g) ++
    g.all.map remarkLine

/-- The lines of a range: of one label, or grouped. -/
def rangeLines (g : Grouped) (range : Range) (pass : Option String) (asJson : Bool) :
    List String :=
  match pass with
  | some label => selectionLines g label asJson
  | none => groupedLines g range asJson

/-- The lines of anchors. -/
def anchorsLines (anchors : List Anchor) (asJson : Bool) : List String :=
  if asJson then Report.json (.array (anchors.map Anchor.toJson)) else anchors.map anchorLine

/-! ## Outcomes -/

/-- The message of a compiler that failed and printed no remark. -/
def compilerFailed (message : String) : Report :=
  Report.failed ["compiler failed: " ++ message]

/-- The report of a collection of all remarks. A compiler that failed is an
    error only if it printed no remark before. -/
def Report.ofCollected (file : Path) (format : Format) : Collected → Report
  | .completed remarks => .printed (remarksLines file format remarks)
  | .cancelled remarks =>
    (Report.printed (remarksLines file format remarks)).under
      [warningLine "cancelled; showing partial results"]
  | .failed message [] => compilerFailed message
  | .failed _ (r :: rs) =>
    (Report.printed (remarksLines file format (r :: rs))).under
      [warningLine "compiler reported errors; showing partial results"]

/-- The report of an analysis of a range. -/
def Report.ofAnswer (range : Range) (pass : Option String) (asJson : Bool) :
    Analysis.Answer → Report
  | .remarks g => .printed (rangeLines g range pass asJson)
  | .rangeUpdated => {}
  | .cancelled => { errors := [warningLine "cancelled"] }
  | .incomplete g message =>
    (Report.printed (rangeLines g range pass asJson)).under
      [warningLine ("compiler failed (" ++ message ++ "); showing partial results")]
  | .failed message => compilerFailed message
  | .busy running => .failed [Analysis.busyMessage running]
  | .unanswerable e => .failed [e.message]

end CompilerRemarks.Cli
