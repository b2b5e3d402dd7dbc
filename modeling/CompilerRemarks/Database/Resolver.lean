/-
  CompilerRemarks.Database.Resolver

  Which database governs a source file. Candidates are, in this order: the
  configured directory, those that `.clangd` names, the root of the
  workspace, its build directories, and every directory from the source up
  to the root. The first one that can be read is searched.
-/
import CompilerRemarks.Database.Basic
import CompilerRemarks.Settings.Basic
import CompilerRemarks.Yaml.Document

namespace CompilerRemarks

/-- The answer of a search for a compile command. -/
inductive Lookup where
  | found (c : Command)
  /-- No candidate could be read. -/
  | noDatabase
  /-- The database has no record for the file. -/
  | noMatchingEntry
  deriving DecidableEq, Repr

namespace Resolver

/-! ## Candidates -/

/-- The name of a database file. -/
def databaseName : Path := ⟨"compile_commands.json"⟩

/-- The name of the file that may point to a database. -/
def pointerName : Path := ⟨".clangd"⟩

/-- The directory that one document of a `.clangd` names. -/
def pointer? (document : Yaml.Value) : Option String :=
  ((document.get? "CompileFlags").bind (·.get? "CompilationDatabase")).bind (·.string?)

/-- The directories that the `.clangd` of a workspace names. -/
def pointerDirectories (files : Files) (root : Path) : List Path :=
  match files.readText (root.join pointerName) with
  | .error _ => []
  | .ok text =>
    ((Yaml.Value.documents text).filterMap pointer?).map fun dir => Path.normalize ⟨dir⟩ root

/-- Whether `part` occurs in a text. -/
def occursIn (part : List Char) : List Char → Bool
  | [] => part.isEmpty
  | c :: rest => part.isPrefixOf (c :: rest) || occursIn part rest

/-- The directories right below the root whose name contains a marker. -/
def buildDirectories (settings : Settings) (files : Files) (root : Path) : List Path :=
  let named := (files.subdirectories root).filter fun name =>
    settings.buildMarkers.any fun marker => occursIn marker.toList name
  (named.map fun name => root.join ⟨String.ofList name⟩).mergeSort Path.le

/-- The directories from a source file up to the root, which is not one of
    them. -/
def upwardDirectories (source root : Path) : List Path :=
  if source.startsWith root then source.ancestors.takeWhile (!·.same root) else []

/-- The paths without those that are the same as an earlier one. -/
def dedupe : List Path → List Path
  | [] => []
  | p :: rest => p :: (dedupe rest).filter (!·.same p)

/-- The directories to search, each at its earliest place. -/
def directories (settings : Settings) (files : Files) (source root : Path) : List Path :=
  dedupe ((settings.databaseDirectory.map (·.normalize root)).toList ++
    pointerDirectories files root ++ [root] ++ buildDirectories settings files root ++
    upwardDirectories source root)

/-- The databases to try. -/
def candidates (settings : Settings) (files : Files) (source root : Path) : List Path :=
  (directories settings files source root).map (·.join databaseName)

/-! ## Resolving -/

/-- The notice for a candidate that cannot be read. -/
def malformedNotice (candidate : Path) (e : Failure) : Notice :=
  ⟨.malformedDatabase, "ignoring " ++ candidate.text ++ ": " ++ e.message⟩

/-- The notice for a database without the file. -/
def noMatchNotice (candidate source : Path) : Notice :=
  ⟨.noMatchingCommand, candidate.text ++ " has no entry for " ++ source.text⟩

/-- The notice for a workspace without a database. -/
def missingNotice (root : Path) : Notice :=
  ⟨.missingDatabase, "no usable " ++ databaseName.text ++ " found for " ++ root.text ++
    "; generate one with your build system"⟩

/-- Searches the first candidate that can be read. -/
def search (files : Files) (source root : Path) : Latch → List Path → Lookup × Latch
  | latch, [] => (.noDatabase, latch.raise (missingNotice root))
  | latch, candidate :: rest =>
    if files.isFile candidate then
      match Database.load files candidate latch with
      | (.error e, latch) => search files source root (latch.raise (malformedNotice candidate e)) rest
      | (.ok db, latch) =>
        match db.find? source root with
        | some c => (.found c, latch)
        | none => (.noMatchingEntry, latch.raise (noMatchNotice candidate source))
    else search files source root latch rest

/-- Finds the compile command of a source file in a workspace. -/
def resolve (settings : Settings) (files : Files) (latch : Latch) (source root : Path) :
    Lookup × Latch :=
  let root := root.normalize files.workingDirectory
  let source := source.normalize root
  search files source root latch (candidates settings files source root)

end Resolver

end CompilerRemarks
