/-
  CompilerRemarks.Files.Edit

  Changes of a file tree: making directories, writing and removing.
-/
import CompilerRemarks.Files.Basic

namespace CompilerRemarks

/-! ## Entries -/

/-- Replaces the entry of a name, or adds it at the end. -/
def Entry.put (name : List Char) (e : Entry) : List (List Char × Entry) → List (List Char × Entry)
  | [] => [(name, e)]
  | (n, old) :: rest => if n == name then (n, e) :: rest else (n, old) :: put name e rest

/-- Puts an entry at a place whose directories exist; `none` takes what is
    there away. -/
def Entry.set (new : Option Entry) : Place → Entry → Entry
  | [], e => new.getD e
  | [name], .directory entries =>
    match new with
    | some e => .directory (put name e entries)
    | none => .directory (entries.filter (·.1 != name))
  | name :: rest, .directory entries =>
    match entries.lookup name with
    | some e => .directory (put name (Entry.set new rest e) entries)
    | none => .directory entries
  | _, e => e

namespace Files

/-- The tree with an entry at a place whose directories exist. -/
def put (files : Files) (place : Place) (e : Entry) : Files :=
  { files with root := files.root.set (some e) place }

/-! ## Directories -/

/-- Goes on by one piece and makes the directory if it is missing. -/
def makeStep (st : Files × Place) (piece : List Char) : Except FileError (Files × Place) :=
  match st.1.step st.2 piece with
  | .ok place => .ok (st.1, place)
  | .error .missing =>
    let place := st.2 ++ [piece]
    .ok (st.1.put place (.directory []), place)
  | .error e => .error e

/-- Makes a directory and those above it. -/
def makeDirectories (files : Files) (p : Path) : Except FileError Files := do
  checkPath p
  let (files, place) ← p.pieces.foldlM makeStep (files, files.start p)
  match files.at? place with
  | some (.directory _) => .ok files
  | _ => .error .notDirectory

/-! ## Files -/

/-- The place that writing to a path would fill: the last piece may be new. -/
def target (files : Files) (p : Path) : Except FileError Place := do
  checkPath p
  let pieces := p.pieces
  let place ← pieces.dropLast.foldlM files.step (files.start p)
  match pieces.getLast? with
  | none => .error .missing
  | some last =>
    match files.step place last with
    | .ok place => .ok place
    | .error .missing =>
      if (files.at? place).isSome then .ok (place ++ [last]) else .error .missing
    | .error e => .error e

/-- Writes a file. One that exists stays executable. -/
def write (files : Files) (p : Path) (bytes : List UInt8) (executable : Bool) :
    Except FileError Files := do
  let place ← files.target p
  match files.at? place with
  | some (.directory _) => .error .isDirectory
  | some (.device _) => .ok files
  | some e => .ok (files.put place (.file bytes (executable || e.isExecutable)))
  | none => .ok (files.put place (.file bytes executable))

/-- Writes a file and makes the directories above it. -/
def writeBelow (files : Files) (p : Path) (bytes : List UInt8) (executable : Bool) :
    Except FileError Files := do
  let files ← match p.parent? with
    | some above => if above.text.isEmpty then .ok files else files.makeDirectories above
    | none => .ok files
  files.write p bytes executable

/-- Removes a file or a directory with all below it. -/
def remove (files : Files) (p : Path) : Except FileError Files := do
  let place ← files.locate p
  if place.isEmpty then .error .denied
  else .ok { files with root := files.root.set none place }

end Files

end CompilerRemarks
