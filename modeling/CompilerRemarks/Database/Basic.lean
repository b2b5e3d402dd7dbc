/-
  CompilerRemarks.Database.Basic

  Compile databases: the records of a `compile_commands.json`, the notices
  for those that are skipped, and the search for the record of a file.
-/
import CompilerRemarks.Command
import CompilerRemarks.Failure
import CompilerRemarks.Json.Reader
import CompilerRemarks.Notice
import CompilerRemarks.Path.Normal

namespace CompilerRemarks

/-- The compile commands of a database, in its order. -/
structure Database where
  path : Path
  commands : List Command
  deriving DecidableEq, Repr

namespace Database

/-! ## Records -/

/-- A check that a record can fail; a record counts for the first. -/
inductive Defect where
  | file
  | directory
  | invocation
  deriving DecidableEq, Repr

/-- The kind of notice that a defect raises. -/
def Defect.notice : Defect → Notice.Kind
  | .file => .invalidRecordFile
  | .directory => .invalidRecordDirectory
  | .invocation => .invalidRecordInvocation

/-- What a record lacks. -/
def Defect.description : Defect → String
  | .file => "missing or non-string \"file\""
  | .directory => "missing or non-string \"directory\""
  | .invocation => "needs non-empty string \"arguments\" or a string \"command\""

/-- The value of an option, or else a defect. -/
def orDefect {α : Type} (d : Defect) : Option α → Except Defect α
  | some a => .ok a
  | none => .error d

/-- The shell line of a record: its words where it lists any, else its line. -/
def lineOf? (record : Json) : Option String :=
  match record.get? "arguments" with
  | some (.array (item :: items)) =>
    ((item :: items).mapM Json.string?).bind ShellWords.join?
  | _ => (record.get? "command").bind Json.string?

/-- The compile command of a record. Paths are made absolute, those of the
    record from `base`, that of its file from its directory. -/
def ofRecord (base : Path) (record : Json) : Except Defect Command := do
  let file ← orDefect .file ((record.get? "file").bind Json.string?)
  let directory ← orDefect .directory ((record.get? "directory").bind Json.string?)
  let line ← orDefect .invocation (lineOf? record)
  let directory := Path.normalize ⟨directory⟩ base
  return ⟨directory, (directory.join ⟨file⟩).normalize directory, line⟩

/-! ## Loading -/

/-- The notice for a record that is skipped. -/
def skipNotice (path : Path) (index : Nat) (d : Defect) : Notice :=
  ⟨d.notice, path.text ++ ": record " ++ Text.decimal index ++ " skipped (" ++ d.description ++ ")"⟩

/-- The valid records among numbered ones, and the latch after the notices
    for the others. -/
def ofRecords (path base : Path) : Latch → List (Json × Nat) → List Command × Latch
  | latch, [] => ([], latch)
  | latch, (record, index) :: rest =>
    match ofRecord base record with
    | .ok c =>
      let (commands, latch) := ofRecords path base latch rest
      (c :: commands, latch)
    | .error d => ofRecords path base (latch.raise (skipNotice path index d)) rest

/-- The directory from which the paths in a database are taken. -/
def baseOf (path : Path) : Path :=
  path.parent?.getD ⟨"/"⟩

/-- Reads a database. Records that are not valid are skipped with a notice;
    a file that cannot be read or holds no JSON array is a failure. -/
def load (files : Files) (path : Path) (latch : Latch) : Except Failure Database × Latch :=
  match files.readText path with
  | .error e => (.error (.file e), latch)
  | .ok text =>
    match Json.ofChars? text with
    | some (.array records) =>
      let (commands, latch) := ofRecords path (baseOf path) latch records.zipIdx
      (.ok ⟨path, commands⟩, latch)
    | _ => (.error .json, latch)

/-! ## Searching -/

/-- Whether a record builds the file at `relative` below its own directory. -/
def buildsRelative (relative : Path) (c : Command) : Bool :=
  match Path.relative? c.file c.directory with
  | some p => p.same relative
  | none => false

/-- The command for a file: a record with that very file, or else one whose
    file lies in its directory as the target lies in the root. Such a record
    comes from a checkout that moved, and is moved to the root. -/
def find? (db : Database) (target root : Path) : Option Command :=
  let target := target.normalize root
  match db.commands.find? (·.file.same target) with
  | some c => some c
  | none => do
    let root := root.normalize root
    let relative ← Path.relative? target root
    let c ← db.commands.find? (buildsRelative relative)
    return ⟨root, target, c.line⟩

end Database

end CompilerRemarks
