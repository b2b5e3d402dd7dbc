/-
  CompilerRemarks.Shell.Redirection

  Redirecting the streams of a process.
-/
import CompilerRemarks.Shell.Expand
import CompilerRemarks.Shell.Program

namespace CompilerRemarks.Shell

/-- The reason for which a file cannot be written or read, in the words of a
    shell. -/
def redirectReason (d : Dialect) (writing : Bool) (name : List Char) (e : FileError) : String :=
  let file := String.ofList name
  match d, writing, e with
  | .bash, _, e => file ++ ": " ++ reason e
  | .plain, true, .missing => "cannot create " ++ file ++ ": Directory nonexistent"
  | .plain, true, e => "cannot create " ++ file ++ ": " ++ reason e
  | .plain, false, .missing => "cannot open " ++ file ++ ": No such file"
  | .plain, false, e => "cannot open " ++ file ++ ": " ++ reason e

/-- A part of a word as it is written. -/
def Part.source : Part → List Char
  | .text s _ => s
  | .parameter ref .none _ => '$' :: ref.name
  | .parameter ref _ _ => "$\x7b".toList ++ ref.name ++ ['\x7d']
  | .capture s _ => "$(".toList ++ s ++ [')']
  | .arithmetic s _ => "$((".toList ++ s ++ "))".toList
  | .channel outward s => (if outward then ">(" else "<(").toList ++ s ++ [')']
  | .senseless s => "$\x7b".toList ++ s ++ ['\x7d']

/-- A word as it is written. -/
def sourceOf (w : Word) : List Char :=
  w.flatMap Part.source

/-- The name of a file in a redirection, or why there is none. -/
def redirectName (r : Runner) (w : Word) : Act (Except String (List Char)) := do
  match (← get).dialect with
  | .plain => return .ok (← expandText r w)
  | .bash =>
    match ← expandWords r [w] with
    | [name] => return .ok name
    | _ => return .error (String.ofList (sourceOf w) ++ ": ambiguous redirect")

/-- Opens a file for a stream; why not, if it cannot be. -/
def redirectFile (r : Runner) (stream : Nat) (how : Opening) (keeps : Bool) (w : Word) :
    Act (Option String) := do
  match ← redirectName r w with
  | .error why => return (if (← get).leaving.isSome then some "" else some why)
  | .ok name =>
    let m ← get
    if m.leaving.isSome then return some ""
    else if keeps && m.has "noclobber" && m.files.isFile (pathOf name) then
      return some (match m.dialect with
        | .bash => String.ofList name ++ ": cannot overwrite existing file"
        | .plain => "cannot create " ++ String.ofList name ++ ": File exists")
    else
      match ← openFile how name with
      | .ok n =>
        bindStream stream n
        return none
      | .error e => return some (redirectReason m.dialect (how != .read) name e)

/-- Lets a stream read a text. -/
def redirectText (stream : Nat) (s : List Char) : Act (Option String) := do
  let bytes := bytesOf s
  let n ← allocate (.pipe #[bytes] bytes.length)
  bindStream stream n
  return none

/-- Carries out a redirection of a numbered stream; why not, if it cannot be.
    An empty reason was reported already. -/
def redirectStream (r : Runner) (rd : Redirect) : Act (Option String) := do
  match rd.target with
  | .read w => redirectFile r rd.stream .read false w
  | .write w => redirectFile r rd.stream .write true w
  | .overwrite w => redirectFile r rd.stream .write false w
  | .append w => redirectFile r rd.stream .append false w
  | .update w => redirectFile r rd.stream .update false w
  | .here w =>
    let s ← expandText r w
    redirectText rd.stream (s ++ ['\n'])
  | .document w wanted =>
    let m ← get
    match wanted, m.dialect with
    | some (line, start, ending), .bash =>
      complainLine (String.ofList m.source ++ ": line " ++ Text.decimal line ++
        ": warning: here-document at line " ++ Text.decimal start ++
        " delimited by end-of-file (wanted `" ++ String.ofList ending ++ "')")
    | _, _ => pure ()
    let s ← expandText r w
    redirectText rd.stream s
  | .copy w both =>
    let s ← expandText r w
    let m ← get
    let (digits, tail) := s.span Char.isDigit
    if s == ['-'] then
      closeStream rd.stream
      return none
    else
      match Text.digits? 10 digits, tail with
      | some n, [] =>
        match m.behind? n with
        | some k =>
          bindStream rd.stream k
          return none
        | none => return some (String.ofList s ++ ": Bad file descriptor")
      | some n, ['-'] =>
        match m.behind? n with
        | some k =>
          bindStream rd.stream k
          closeStream n
          return none
        | none => return some (String.ofList digits ++ ": Bad file descriptor")
      | _, _ =>
        if both && m.isBash then
          match ← redirectFile r 1 .write true w with
          | some why => return some why
          | none =>
            match (← get).behind? 1 with
            | some k => bindStream 2 k
            | none => pure ()
            return none
        else if m.isBash then return some (String.ofList (sourceOf w) ++ ": ambiguous redirect")
        else return some "Bad fd number"

/-- The first number of streams that a shell chooses itself. -/
def firstChosen : Nat := 10

/-- Carries out a redirection; why not, if it cannot be. A named stream that is
    copied from `-` is closed. -/
def redirect (r : Runner) (rd : Redirect) : Act (Option String) := do
  match rd.name with
  | none => redirectStream r rd
  | some name =>
    let m ← get
    match rd.target with
    | .copy [.text ['-'] false] _ =>
      match (m.text? name).bind (Text.digits? 10) with
      | some n =>
        closeStream n
        return none
      | none => return some (String.ofList name ++ ": ambiguous redirect")
    | _ =>
      let used := m.streams.map (·.1)
      let chosen := ((List.range (used.length + 1)).map (· + firstChosen)).find? (!used.contains ·)
      let stream := chosen.getD firstChosen
      let why ← redirectStream r { rd with stream := stream }
      if why.isNone then
        let _ ← assignText "" name none false (Nat.toDigits 10 stream)
      return why

/-- Carries out redirections up to the first that cannot be. -/
def redirectAll (r : Runner) : List Redirect → Act (Option String)
  | [] => return none
  | rd :: rest => do
    match ← redirect r rd with
    | some why => return some why
    | none => redirectAll r rest

end CompilerRemarks.Shell
