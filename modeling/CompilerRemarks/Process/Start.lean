/-
  CompilerRemarks.Process.Start

  Finding and starting programs.
-/
import CompilerRemarks.Shell.Run

namespace CompilerRemarks.Process

/-! ## Finding -/

/-- Whether a program can be found: one with a directory in its name where it
    says, any other in the search path. -/
def isInstalled (files : Files) (program : String) : Bool :=
  let p : Path := ⟨program⟩
  if p.components.length > 1 then files.isExecutable p
  else Files.searchPath.any fun dir => files.isExecutable (dir.join p)

/-! ## Starting -/

/-- What a process wrote, how it ended and the files that it left. -/
structure Done where
  log : List Emission
  exit : Exit
  files : Files

/-- The files with another working directory. -/
def enter (files : Files) (directory : Path) : Except FileError Files := do
  let place ← files.locate directory
  match files.at? place with
  | some (.directory _) => .ok { files with here := place }
  | _ => .error .notDirectory

/-- The entry of a program that is to be started. -/
def startable (files : Files) (program : String) : Except FileError Entry :=
  match Shell.programPath? files program.toList with
  | none => .error .missing
  | some p => do
    let entry ← files.find p
    if !entry.isExecutable then .error .denied
    else
      match entry with
      | .file bytes _ =>
        match Shell.interpreter? (Text.Utf8.decodeLossy bytes) with
        | none => .error .notProgram
        | some (path, _) => do
          let inner ← files.find ⟨String.ofList path⟩
          if inner.isExecutable then .ok entry else .error .denied
      | _ => .ok entry

/-- Runs a program to its end in a directory, or in the working directory. -/
def run (files : Files) (program : String) (args : List String) (directory : Option Path) :
    Except FileError Done := do
  let texts := program :: args ++ (directory.map (·.text)).toList
  if texts.any fun s => s.toList.contains '\x00' then .error .nulInArgument
  else
    let inside ← match directory with
      | some d => enter files d
      | none => .ok files
    let entry ← startable inside program
    let (log, exit, after) :=
      Shell.runProgram inside entry program.toList (args.map String.toList)
    .ok ⟨log, exit, { after with here := files.here }⟩

end CompilerRemarks.Process
