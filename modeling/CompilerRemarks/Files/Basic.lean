/-
  CompilerRemarks.Files.Basic

  A file tree with a working directory, and the lookup of paths in it. A
  path is followed piece by piece: `..` goes to the directory above, and
  every piece but the last must be a directory.
-/
import CompilerRemarks.Path.Basic
import CompilerRemarks.Text.Utf8

namespace CompilerRemarks

/-! ## Errors -/

/-- Why a file operation failed. -/
inductive FileError where
  | missing
  | notDirectory
  | isDirectory
  | denied
  | notProgram
  | nameTooLong
  | nulInName
  | nulInArgument
  | notText
  deriving DecidableEq, Repr

/-- The text of a file error. -/
def FileError.message : FileError → String
  | .missing => "No such file or directory (os error 2)"
  | .notDirectory => "Not a directory (os error 20)"
  | .isDirectory => "Is a directory (os error 21)"
  | .denied => "Permission denied (os error 13)"
  | .notProgram => "Exec format error (os error 8)"
  | .nameTooLong => "File name too long (os error 36)"
  | .nulInName => "file name contained an unexpected NUL byte"
  | .nulInArgument => "nul byte found in provided data"
  | .notText => "stream did not contain valid UTF-8"

/-! ## Trees -/

/-- A device file. -/
inductive Device where
  /-- Swallows what is written and holds nothing. -/
  | null
  /-- The standard input of whoever opens it. -/
  | input
  /-- The standard output of whoever opens it. -/
  | output
  /-- The standard error of whoever opens it. -/
  | errors
  deriving DecidableEq, Repr

/-- What a name in a directory stands for. -/
inductive Entry where
  | file (contents : List UInt8) (executable : Bool)
  /-- An installed program, by name. -/
  | program (name : String)
  | device (d : Device)
  | directory (entries : List (List Char × Entry))
  deriving Repr

/-- The place of an entry: the names that lead to it from the root. -/
abbrev Place := List (List Char)

/-- A file tree and the place of the working directory. -/
structure Files where
  root : Entry
  here : Place

namespace Entry

/-- The entry of a name in a directory. -/
def child? (e : Entry) (name : List Char) : Option Entry :=
  match e with
  | .directory entries => entries.lookup name
  | _ => none

/-- The entry at a place below this one. -/
def at? (e : Entry) : Place → Option Entry
  | [] => some e
  | name :: rest => (e.child? name).bind (·.at? rest)

/-- Whether the entry is a directory. -/
def isDirectory : Entry → Bool
  | .directory _ => true
  | _ => false

/-- Whether the entry is a regular file. -/
def isFile : Entry → Bool
  | .file .. => true
  | .program _ => true
  | _ => false

/-- Whether the entry is a file that may be run. -/
def isExecutable : Entry → Bool
  | .file _ executable => executable
  | .program _ => true
  | _ => false

/-- The first bytes of an installed program: machine code, and no text. -/
def machineCode : List UInt8 :=
  [0x7F, 0x45, 0x4C, 0x46, 0x02, 0x01, 0x01, 0xFF]

/-- What reading the entry yields. -/
def contents : Entry → Except FileError (List UInt8)
  | .file bytes _ => .ok bytes
  | .program _ => .ok machineCode
  | .device _ => .ok []
  | .directory _ => .error .isDirectory

end Entry

/-! ## Following paths -/

/-- The pieces of a text between slashes; `piece` is the one being read,
    reversed. -/
def Path.piecesFrom (piece : List Char) : List Char → List (List Char)
  | [] => [piece.reverse]
  | c :: rest =>
    if c == '/' then piece.reverse :: piecesFrom [] rest else piecesFrom (c :: piece) rest

/-- The pieces of a path between slashes, empty ones included. -/
def Path.pieces (p : Path) : List (List Char) :=
  piecesFrom [] p.text.toList

/-- The longest name, in bytes. -/
def maxName : Nat := 255

/-- The longest path, in bytes. -/
def maxPath : Nat := 4095

namespace Files

/-- The entry at a place. -/
def at? (files : Files) (place : Place) : Option Entry :=
  files.root.at? place

/-- Goes on by one piece of a path. -/
def step (files : Files) (place : Place) (piece : List Char) : Except FileError Place :=
  match files.at? place with
  | none => .error .missing
  | some e =>
    if !e.isDirectory then .error .notDirectory
    else if piece == [] || piece == ['.'] then .ok place
    else if piece == ['.', '.'] then .ok place.dropLast
    else if Text.Utf8.size piece > maxName then .error .nameTooLong
    else if (e.child? piece).isSome then .ok (place ++ [piece])
    else .error .missing

/-- Checks that a path can name a file at all. -/
def checkPath (p : Path) : Except FileError Unit :=
  let s := p.text.toList
  if s.contains '\x00' then .error .nulInName
  else if s.isEmpty then .error .missing
  else if Text.Utf8.size s > maxPath then .error .nameTooLong
  else .ok ()

/-- Where the pieces of a path start. -/
def start (files : Files) (p : Path) : Place :=
  if p.isAbsolute then [] else files.here

/-- The place that a path leads to. -/
def locate (files : Files) (p : Path) : Except FileError Place := do
  checkPath p
  p.pieces.foldlM files.step (files.start p)

/-- The entry that a path leads to. -/
def find (files : Files) (p : Path) : Except FileError Entry := do
  let place ← files.locate p
  match files.at? place with
  | some e => .ok e
  | none => .error .missing

/-- Whether the path leads to a regular file. -/
def isFile (files : Files) (p : Path) : Bool :=
  match files.find p with
  | .ok e => e.isFile
  | .error _ => false

/-- Whether the path leads to a directory. -/
def isDirectory (files : Files) (p : Path) : Bool :=
  match files.find p with
  | .ok e => e.isDirectory
  | .error _ => false

/-- Whether the path leads to a file that may be run. -/
def isExecutable (files : Files) (p : Path) : Bool :=
  match files.find p with
  | .ok e => e.isExecutable
  | .error _ => false

/-- The bytes of a file. -/
def read (files : Files) (p : Path) : Except FileError (List UInt8) := do
  (← files.find p).contents

/-- The text of a file. -/
def readText (files : Files) (p : Path) : Except FileError (List Char) := do
  match Text.Utf8.decode? (← files.read p) with
  | some text => .ok text
  | none => .error .notText

/-- The names of the directories in a directory; none if it cannot be listed. -/
def subdirectories (files : Files) (p : Path) : List (List Char) :=
  match files.find p with
  | .ok (.directory entries) => (entries.filter (·.2.isDirectory)).map (·.1)
  | _ => []

/-- The path of the working directory. -/
def workingDirectory (files : Files) : Path :=
  Path.ofComponents (.root :: files.here.map .name)

end Files

end CompilerRemarks
