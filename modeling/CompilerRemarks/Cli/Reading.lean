/-
  CompilerRemarks.Cli.Reading

  Reading the words of a command line from left to right. The words before
  the command and those after it are read by the same rules, each with their
  own record of what was given. The value of a parameter is looked at only
  when the next parameter comes, or at the end.
-/
import CompilerRemarks.Cli.Parameter

namespace CompilerRemarks.Cli

/-- What was read so far. -/
structure Reading where
  /-- The values given, the last one first. -/
  found : List (Parameter × Value) := []
  /-- The last parameter, whose value is still to be looked at; `none` for a
      value that is yet to come. -/
  pending : Option (Parameter × Option String) := none
  /-- Whether a word `--` was read, behind which all words are files. -/
  isTrailing : Bool := false
  /-- Whether the file was read. -/
  hasFile : Bool := false
  deriving DecidableEq, Repr

namespace Reading

/-! ## Values -/

/-- Whether a parameter has a value already. -/
def has (r : Reading) (p : Parameter) : Bool :=
  (r.found.lookup p).isSome

/-- Whether the next word is the value of an option. -/
def isAwaiting (r : Reading) : Bool :=
  !r.isTrailing &&
    match r.pending with
    | some (_, none) => true
    | _ => false

/-- Records a parameter. A value left out is worse than a parameter given
    twice, which is worse than an unreadable value. -/
def record (r : Reading) (p : Parameter) (value : Option String) : Except Usage Reading :=
  if p.form.takesValue && value.isNone then .error .missingValue
  else if r.has p && p.form != .tally then .error .conflict
  else
    match p.form.read (value.getD "") with
    | .ok v => .ok { r with found := (p, v) :: r.found }
    | .error u => .error u

/-- Looks at the value that is pending. -/
def settle (r : Reading) : Except Usage Reading :=
  match r.pending with
  | none => .ok r
  | some (p, value) => { r with pending := none }.record p value

/-! ## Words -/

/-- Reads an option; its value may be attached to it. -/
def option (r : Reading) (p : Parameter) (attached : Option String) : Except Usage Reading := do
  let r ← r.settle
  if p.form.takesValue && attached.isNone then return { r with pending := some (p, none) }
  else r.record p attached

/-- Reads the name of an option, with what stands behind an equals sign. -/
def long (place : Option Verb) (r : Reading) (name : String) (attached : Option String) :
    Except Usage Reading :=
  match Parameter.ofName? place name with
  | none => .error .unknownArgument
  | some p =>
    if !p.form.takesValue && attached.isSome then .error .unneededValue
    else r.option p attached

/-- The value attached to a letter: the rest of its word, without one equals
    sign. -/
def attachedTo : List Char → Option String
  | [] => none
  | '=' :: rest => some (String.ofList rest)
  | rest => some (String.ofList rest)

/-- Reads a word of letters. -/
def letters (place : Option Verb) (r : Reading) : List Char → Except Usage Reading
  | [] => .ok r
  | c :: rest =>
    match Parameter.ofLetter? place c with
    | none => .error .unknownArgument
    | some p =>
      if p.form.takesValue then r.option p (attachedTo rest)
      else do letters place (← r.option p none) rest

/-- Reads a word that is no option: the value of one, or the file. -/
def plain (place : Option Verb) (r : Reading) (word : String) : Except Usage Reading :=
  if r.isAwaiting then .ok { r with pending := r.pending.map fun (p, _) => (p, some word) }
  else if place.isNone then
    .error (if r.isTrailing && Verb.isName word then .unknownArgument else .unknownCommand)
  else if r.hasFile then .error .unknownArgument
  else do
    let r ← r.settle
    return { r with hasFile := true, pending := some (.file, some word) }

/-! ## Command lines -/

/-- What a word is. -/
inductive Word where
  | verb (v : Verb)
  | help
  | divider
  | long (name : String) (attached : Option String)
  | letters (cs : List Char)
  | plain
  deriving DecidableEq, Repr

/-- The name and the attached value of a word behind two dashes. -/
def splitLong (cs : List Char) : Word :=
  match cs.dropWhile (· != '=') with
  | '=' :: value => .long (String.ofList (cs.takeWhile (· != '='))) (some (String.ofList value))
  | _ => .long (String.ofList cs) none

/-- What a word is by its dashes. -/
def wordOf : List Char → Word
  | ['-', '-'] => .divider
  | '-' :: '-' :: name => splitLong name
  | ['-'] => .plain
  | '-' :: cs => .letters cs
  | _ => .plain

/-- What a word is. Commands are known only before the first command, and
    not in place of a value. -/
def classify (place : Option Verb) (r : Reading) (word : String) : Word :=
  if r.isTrailing then .plain
  else if place.isNone && !r.isAwaiting && Verb.isName word then
    match Verb.ofName? word with
    | some v => .verb v
    | none => .help
  else wordOf word.toList

/-- The answer to a request for help on the command named by `words`. -/
def helpOn : List String → Usage
  | [] => .help
  | [word] => if Verb.isName word then .help else .unknownCommand
  | _ => .unknownCommand

/-- Reads words up to the end or to a command, which is returned with the
    words behind it. -/
def scan (place : Option Verb) (r : Reading) :
    List String → Except Usage (Reading × Option (Verb × List String))
  | [] => .ok (r, none)
  | word :: rest =>
    match classify place r word with
    | .verb v => .ok (r, some (v, rest))
    | .help => .error (helpOn rest)
    | .divider => scan place { r with isTrailing := true } rest
    | .long name attached =>
      match r.long place name attached with
      | .ok r => scan place r rest
      | .error u => .error u
    | .letters cs =>
      match r.letters place cs with
      | .ok r => scan place r rest
      | .error u => .error u
    | .plain =>
      match r.plain place word with
      | .ok r => scan place r rest
      | .error u => .error u

end Reading

end CompilerRemarks.Cli
