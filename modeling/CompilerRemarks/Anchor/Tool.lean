/-
  CompilerRemarks.Anchor.Tool

  Anchors from a compiler that dumps the syntax tree of a file.
-/
import CompilerRemarks.Anchor.Dump
import CompilerRemarks.Anchor.Scan
import CompilerRemarks.Failure
import CompilerRemarks.Json.Reader
import CompilerRemarks.Process.Start
import CompilerRemarks.Settings.Basic
import CompilerRemarks.Text.Blank

namespace CompilerRemarks.Anchor

/-- Why a tool that printed no tree failed: what it complained of, or how it
    ended. -/
def silence (tool : String) (done : Process.Done) : String :=
  let complaint := Text.trim (Text.Utf8.decodeLossy (Emission.on Emission.errors done.log))
  if complaint.isEmpty then tool ++ " exited with " ++ done.exit.text
  else String.ofList complaint

/-- The anchors in what a tool printed. -/
def ofDump (tool : String) (file : Path) (done : Process.Done) : Except Failure (List Anchor) :=
  let output := Emission.on Emission.output done.log
  if output.isEmpty then .error (.astTool (silence tool done))
  else
    match Json.ofBytes? output with
    | some tree => .ok (Dump.anchors file tree)
    | none => .error .json

/-- Runs a tool on a file, in the directory and with the flags of its compile
    command if there is one. -/
def ofTool (files : Files) (tool : String) (command : Option Command) (file : Path) :
    Except Failure (List Anchor) × Files :=
  if !Process.isInstalled files tool then (.error (.toolchainMissing tool), files)
  else
    match Process.run files tool (Dump.arguments command file) (command.map (·.directory)) with
    | .error e => (.error (.spawn tool e), files)
    | .ok done => (ofDump tool file done, done.files)

/-- The anchors of a file by the locator that the settings choose. -/
def locate (settings : Settings) (files : Files) (command : Option Command) (file : Path)
    (source : List UInt8) : Except Failure (List Anchor) × Files :=
  match settings.locator with
  | .text => (.ok (ofSource source), files)
  | .dump => ofTool files settings.astTool command file

end CompilerRemarks.Anchor
