/-
  CompilerRemarks.Files.Image

  A workspace written down as one JSON value: the directory it lies in and
  the texts of its files. A text that starts like a script is executable.
-/
import CompilerRemarks.Files.Standard
import CompilerRemarks.Json.Basic

namespace CompilerRemarks.Files

/-- Whether a text starts by naming its interpreter. -/
def isScript (text : List Char) : Bool :=
  ['#', '!'].isPrefixOf text

/-- Adds a file of a workspace. -/
def addText (directory : Path) (files : Files) (member : String × Json) : Option Files := do
  let text ← member.2.string?
  (files.writeBelow (directory.join ⟨member.1⟩) (Text.Utf8.encode text.toList)
    (isScript text.toList)).toOption

/-- The files of an image, with its directory as working directory. -/
def ofImage? (image : Json) : Option Files := do
  let directory : Path := ⟨← (← image.get? "directory").string?⟩
  let files ← (standard.makeDirectories directory).toOption
  let here ← (files.locate directory).toOption
  let members ← match image.get? "files" with
    | some (.object members) => some members
    | _ => none
  members.foldlM (addText directory) { files with here := here }

end CompilerRemarks.Files
