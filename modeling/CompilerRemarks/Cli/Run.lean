/-
  CompilerRemarks.Cli.Run

  Running a command line: the settings, the compile command, and the report
  of what was asked for.
-/
import CompilerRemarks.Anchor.Tool
import CompilerRemarks.Cli.Report
import CompilerRemarks.Database.Resolver
import CompilerRemarks.Session.Serve
import CompilerRemarks.Settings.Reader

namespace CompilerRemarks.Cli

/-! ## The context of a command -/

/-- What the globals of a command line come to. -/
structure Context where
  workspace : Path
  settings : Settings
  files : Files
  compileCommand : Option String
  directory : Option Path

/-- What went wrong and why, the outermost message first. -/
abbrev Chain := List String

/-- The result of a step under a message that says what was tried. -/
def trying {α : Type} (message : String) : Except Failure α → Except Chain α
  | .ok a => .ok a
  | .error f => .error (message :: f.chain)

/-- The settings that the globals name. -/
def settingsOf (files : Files) (workspace : Path) (config : Option Path) : Except Chain Settings :=
  match config with
  | some file => trying ("Failed to load config from " ++ file.text) (Settings.load files file)
  | none => trying "Failed to load workspace config" (Settings.loadWorkspace files workspace)

namespace Context

/-- Sets a command up. -/
def load (files : Files) (g : Globals) : Except Chain Context := do
  let workspace := g.workspace.getD files.workingDirectory
  let settings ← settingsOf files workspace g.config
  return ⟨workspace, settings, files, g.compileCommand, g.directory⟩

/-- A file seen from the working directory. -/
def absolute (ctx : Context) (file : Path) : Path :=
  ctx.files.workingDirectory.join file

/-- Refuses a file that is no source file. -/
def checkSource (ctx : Context) (file : Path) : Except Chain Unit :=
  if ctx.settings.supports file then .ok ()
  else .error [file.text ++ " is not a C/C++ source file (expected one of " ++
    String.intercalate " " ctx.settings.sourceEndings ++ ")"]

/-- The compile command of a file: the one that was given, or the one in a
    compile database. -/
def commandFor (ctx : Context) (file : Path) : Except Chain Command :=
  match ctx.compileCommand with
  | some line => .ok ⟨ctx.directory.getD ctx.workspace, file, line⟩
  | none =>
    match (Resolver.resolve ctx.settings ctx.files Latch.new file ctx.workspace).1 with
    | .found c => .ok c
    | .noDatabase => .error ["no compile command for " ++ file.text ++
        ": no compile_commands.json under " ++ ctx.workspace.text]
    | .noMatchingEntry => .error ["no compile command for " ++ file.text ++
        ": the compile database has no entry for it"]

/-- The compile command of a source file. -/
def sourceCommand (ctx : Context) (file : Path) : Except Chain Command := do
  ctx.checkSource file
  ctx.commandFor file

/-! ## Commands

`arrival` is how what a compiler does reaches a command. -/

/-- Reports the compile command of a file. -/
def resolve (ctx : Context) (file : Path) : Report :=
  match ctx.commandFor (ctx.absolute file) with
  | .ok c => .printed (commandLines c)
  | .error chain => .failed chain

/-- Keeps the complaints of a compiler; nobody cancels. -/
def hearing : Observer (List String) :=
  ⟨fun heard line => heard ++ [line], fun _ => false⟩

/-- Reports every remark of a file. -/
def remarks (arrival : Process.Done → List Collect.Event) (ctx : Context) (file : Path)
    (format : Format) : Report × Files :=
  let file := ctx.absolute file
  match ctx.sourceCommand file with
  | .error chain => (.failed chain, ctx.files)
  | .ok c =>
    let r := Producer.produceAlong arrival ctx.settings ctx.files Latch.new c hearing []
    ((Report.ofCollected file format r.collected).under (r.observer.map complaintLine), r.files)

/-- Reports the remarks in a range. -/
def range (arrival : Process.Done → List Collect.Event) (ctx : Context) (file : Path)
    (range : Range) (pass : Option String) (asJson : Bool) : Report × Files :=
  let file := ctx.absolute file
  match ctx.sourceCommand file with
  | .error chain => (.failed chain, ctx.files)
  | .ok c =>
    let (answer, scene) := Analysis.serveAlong arrival ctx.settings c range
      (fun (session, heard) line => (session, heard ++ [line]))
      ⟨Session.new, ctx.files, Latch.new, []⟩
    let report := (answer.map (Report.ofAnswer range pass asJson)).getD {}
    (report.under (scene.observer.map complaintLine), scene.files)

/-- Reports the functions and loops of a file. Its compile command is needed
    only for the flags of a syntax tree, and may be unknown. -/
def anchors (ctx : Context) (file : Path) (asJson : Bool) : Report × Files :=
  let file := ctx.absolute file
  match ctx.files.readText file with
  | .error e => (.failed ["Failed to read " ++ file.text, e.message], ctx.files)
  | .ok source =>
    let command := match ctx.settings.locator with
      | .text => none
      | .dump => (ctx.commandFor file).toOption
    let (found, files) := Anchor.locate ctx.settings ctx.files command file
      (Text.Utf8.encode source)
    match trying "Failed to locate functions and loops" found with
    | .ok anchors => (.printed (anchorsLines anchors asJson), files)
    | .error chain => (.failed chain, files)

/-- Does what is asked for. -/
def perform (arrival : Process.Done → List Collect.Event) (ctx : Context) : Task → Report × Files
  | .resolve file => (ctx.resolve file, ctx.files)
  | .remarks file format => ctx.remarks arrival file format
  | .range file span pass asJson => ctx.range arrival file span.range pass asJson
  | .anchors file asJson => ctx.anchors file asJson

end Context

/-- Runs a command line on a tree of files; `arrival` is how what a compiler
    does reaches the command. -/
def Invocation.runAlong (arrival : Process.Done → List Collect.Event) (files : Files)
    (i : Invocation) : Report × Files :=
  match Context.load files i.globals with
  | .error chain => (.failed chain, files)
  | .ok ctx => ctx.perform arrival i.task

/-- Runs a command line whose compiler is seen to do everything in the order in
    which it does it. -/
def Invocation.run (files : Files) (i : Invocation) : Report × Files :=
  i.runAlong Producer.eventsOf files

end CompilerRemarks.Cli
