/-
  CompilerRemarks.Shell.Stream

  Opening, reading and writing the streams of a process.
-/
import CompilerRemarks.Shell.Machine

namespace CompilerRemarks.Shell

/-! ## Descriptions -/

/-- Adds an open file and gives its number. -/
def allocate (d : Description) : Act Nat := do
  let n := (← get).descriptions.size
  modify fun m => { m with descriptions := m.descriptions.push d }
  return n

/-- The number of the open file behind a stream. -/
def Machine.behind? (m : Machine) (stream : Nat) : Option Nat :=
  m.streams.lookup stream

/-- The open file of a number. -/
def Machine.description (m : Machine) (n : Nat) : Description :=
  m.descriptions.getD n .null

/-- Replaces an open file. -/
def describe (n : Nat) (d : Description) : Act Unit :=
  modify fun m => { m with descriptions := m.descriptions.setIfInBounds n d }

/-- Lets a stream lead to an open file. -/
def bindStream (stream n : Nat) : Act Unit :=
  modify fun m => { m with streams := (stream, n) :: m.streams.filter (·.1 != stream) }

/-- Closes a stream. -/
def closeStream (stream : Nat) : Act Unit :=
  modify fun m => { m with streams := m.streams.filter (·.1 != stream) }

/-! ## Writing -/

/-- How much a pipe takes before its writer is taken to have no reader. -/
def pipeLimit : Nat := 131072

/-- The signal of a write that nobody reads. -/
def brokenPipe : Nat := 13

/-- A text with bytes at an offset. -/
def overwrite (old : List UInt8) (offset : Nat) (bytes : List UInt8) : List UInt8 :=
  old.take offset ++ List.replicate (offset - old.length) 0 ++ bytes ++ old.drop (offset + bytes.length)

/-- Writes to an open file; tells whether it can be written. -/
def writeTo (n : Nat) (bytes : List UInt8) : Act Bool := do
  let m ← get
  match m.description n with
  | .outer stream =>
    modify fun m =>
      { m with records := m.records.push ⟨m.clock, m.job, ⟨stream, bytes⟩⟩ }
    return true
  | .null => return true
  | .pipe chunks size =>
    if size > pipeLimit then leave (.exit (.signal brokenPipe))
    else describe n (.pipe (chunks.push bytes) (size + bytes.length))
    return true
  | .file place offset reads writes appends =>
    if !writes then return false
    else
      let old := match m.files.at? place with
        | some (.file old _) => old
        | _ => []
      let offset := if appends then old.length else offset
      let isExecutable := ((m.files.at? place).map Entry.isExecutable).getD false
      let entry : Entry := .file (overwrite old offset bytes) isExecutable
      modify fun m => { m with files := m.files.put place entry }
      describe n (.file place (offset + bytes.length) reads writes appends)
      return true

/-- Writes to a stream; tells whether it can be written. -/
def write (stream : Nat) (bytes : List UInt8) : Act Bool := do
  if bytes.isEmpty then return true
  else
    match (← get).behind? stream with
    | some n => writeTo n bytes
    | none => return false

/-- Writes a line to standard error. -/
def complainLine (s : String) : Act Unit := do
  let _ ← write Emission.errors (bytesOf (s.toList ++ ['\n']))

/-- Complains in the name of the shell. -/
def complain (s : String) : Act Unit := do
  complainLine ((← get).label ++ s)

/-- Complains and ends a command with a number. -/
def fail (s : String) (n : Nat) : Act Unit := do
  complain s
  endWith n

/-! ## Reading -/

/-- What can still be read from an open file. -/
def Machine.unread (m : Machine) (n : Nat) : Except FileError (List UInt8) :=
  match m.description n with
  | .outer _ => .ok []
  | .null => .ok []
  | .pipe chunks _ => .ok (chunks.toList.flatten)
  | .file place offset reads _ _ =>
    if !reads then .error .denied
    else
      match m.files.at? place with
      | some e => e.contents.map (·.drop offset)
      | none => .ok []

/-- Whether what was read from an open file can be given back. -/
def Machine.isSeekable (m : Machine) (n : Nat) : Bool :=
  match m.description n with
  | .file .. => true
  | _ => false

/-- Takes bytes away from what can be read. -/
def consume (n count : Nat) : Act Unit := do
  let m ← get
  match m.description n with
  | .pipe chunks _ =>
    let rest := chunks.toList.flatten.drop count
    describe n (.pipe (if rest.isEmpty then #[] else #[rest]) rest.length)
  | .file place offset reads writes appends =>
    describe n (.file place (offset + count) reads writes appends)
  | _ => pure ()

/-- What can be read from a stream. -/
def Machine.input (m : Machine) (stream : Nat) : Option (Except FileError (List UInt8)) :=
  (m.behind? stream).map m.unread

/-- Takes all that can be read from a stream. -/
def drain (stream : Nat) : Act (List UInt8) := do
  let m ← get
  match m.behind? stream with
  | none => return []
  | some n =>
    match m.unread n with
    | .ok bytes =>
      consume n bytes.length
      return bytes
    | .error _ => return []

/-! ## Opening -/

/-- How a file is opened. -/
inductive Opening where
  | read
  | write
  | append
  | update
  deriving DecidableEq

/-- The stream that a path stands for. -/
def Machine.streamOf? (m : Machine) (name : List Char) : Option Nat :=
  let descriptor := "/dev/fd/".toList
  if descriptor.isPrefixOf name then Text.digits? 10 (name.drop descriptor.length)
  else
    match m.files.find (pathOf name) with
    | .ok (.device .output) => some 1
    | .ok (.device .errors) => some 2
    | .ok (.device .input) => some 0
    | _ => none

/-- Opens a file and gives the number of its description. -/
def openFile (how : Opening) (name : List Char) : Act (Except FileError Nat) := do
  let m ← get
  match m.streamOf? name with
  | some stream =>
    match m.behind? stream with
    | some n => return .ok n
    | none => return .error .missing
  | none =>
    let p := pathOf name
    let start (files : Files) (place : Place) : Act (Except FileError Nat) := do
      modify fun m => { m with files := files }
      let n ← allocate (.file place 0 (how == .read || how == .update) (how != .read) (how == .append))
      return .ok n
    match m.files.find p, how with
    | .ok (.device .null), _ =>
      let n ← allocate .null
      return .ok n
    | .ok (.directory _), .read => start m.files ((m.files.locate p).toOption.getD [])
    | .ok (.directory _), _ => return .error .isDirectory
    | .ok _, .write =>
      match m.files.target p, m.files.write p [] false with
      | .ok place, .ok files => start files place
      | .error e, _ => return .error e
      | _, .error e => return .error e
    | .ok _, _ => start m.files ((m.files.locate p).toOption.getD [])
    | .error e, .read => return .error e
    | .error _, _ =>
      match m.files.target p, m.files.write p [] false with
      | .ok place, .ok files => start files place
      | .error e, _ => return .error e
      | _, .error e => return .error e

end CompilerRemarks.Shell
