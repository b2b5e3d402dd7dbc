/-
  CompilerRemarks.Shell.Condition

  Conditions in double brackets, and the trace of commands.
-/
import CompilerRemarks.Shell.Expand
import CompilerRemarks.Shell.Regex
import CompilerRemarks.Shell.Test

namespace CompilerRemarks.Shell

/-! ## Traces -/

/-- Shows a command before it is run, if that is wanted. -/
def trace (s : List Char) : Act Unit := do
  let m ← get
  if m.has "xtrace" then
    let mark := (m.text? "PS4".toList).getD ['+', ' ']
    let marks := match mark with
      | c :: _ => List.replicate (if m.isBash then m.depth else 0) c ++ mark
      | [] => []
    let _ ← write Emission.errors (bytesOf (marks ++ s ++ ['\n']))

/-- Words as a trace shows them. -/
def tracedWords (words : List (List Char)) : List Char :=
  joinWith [' '] (words.map traced)

/-- A text that is empty in a trace. -/
def tracedSide (s : List Char) : List Char :=
  if s.isEmpty then ['\'', '\''] else s

/-- A pattern as a trace shows it, with what is quoted escaped. -/
def tracedPattern (p : List Marked) : List Char :=
  if p.isEmpty then ['\'', '\'']
  else p.flatMap fun (c, quoted) => if quoted then ['\\', c] else [c]

/-- Shows a test. -/
def traceTest (negated : Bool) (s : List Char) : Act Unit :=
  trace ("[[ ".toList ++ (if negated then ['!', ' '] else []) ++ s ++ " ]]".toList)

/-! ## Tests -/

/-- Whether a text matches a pattern. -/
def Machine.fits (m : Machine) (p : List Marked) (s : List Char) : Bool :=
  let fold := fun (c : Char) => if m.allows "nocasematch" then c.toLower else c
  isMatch (atomsOf true (p.map fun (c, q) => (fold c, q))) (s.map fold)

/-- Matches a text with a regular expression and keeps what its groups
    matched. -/
def matchRegex (p : List Marked) (s : List Char) : Act (Option Bool) := do
  let m ← get
  let fold := fun (c : Char) => if m.allows "nocasematch" then c.toLower else c
  match Regex.ofMarked? (p.map fun (c, q) => (fold c, q)) with
  | none => return none
  | some regex =>
    let found := regex.matched? regex.groupCount (s.map fold)
    let name := "BASH_REMATCH".toList
    let items := ((found.getD []).zipIdx).map fun (t, k) => (k, t)
    modify fun m => m.put { Variable.unset name with value := some (.listed items) }
    return some found.isSome

/-- Whether a test of two words holds; `none` if it cannot be told. -/
def binaryHolds (r : Runner) (negated : Bool) (a : Word) (op : List Char) (b : Word) :
    Act (Option Bool) := do
  let x ← expandText r a
  let show_ (y : List Char) : Act Unit :=
    traceTest negated (tracedSide x ++ ' ' :: op ++ ' ' :: tracedSide y)
  let matching (y : List Marked) : Act Unit :=
    traceTest negated (tracedSide x ++ ' ' :: op ++ ' ' :: tracedPattern y)
  match numberTest? op with
  | some test =>
    let y ← expandText r b
    show_ y
    match ← calculate "[[: " x with
    | none => return some false
    | some m =>
      match ← calculate "[[: " y with
      | none => return some false
      | some n => return some (test m n)
  | none =>
    match String.ofList op with
    | "=~" =>
      let p ← expandMarks r b
      matching p
      matchRegex p x
    | "!=" =>
      let p ← expandMarks r b
      matching p
      return some (!(← get).fits p x)
    | known =>
      if known == "=" || known == "==" then
        let p ← expandMarks r b
        matching p
        return some ((← get).fits p x)
      else
        let y ← expandText r b
        show_ y
        match (← get).binaryTest x op y with
        | .ok answer => return some answer
        | .error _ => return none

/-- Whether a condition holds; `none` if it cannot be told. -/
def holds (r : Runner) (negated : Bool) : Condition → Act (Option Bool)
  | .filled w => do
    let s ← expandText r w
    traceTest negated ("-n ".toList ++ tracedSide s)
    return some !s.isEmpty
  | .unary op w => do
    let s ← expandText r w
    traceTest negated (op ++ ' ' :: tracedSide s)
    return some ((← get).unaryTest op s)
  | .binary a op b => binaryHolds r negated a op b
  | .negated c => do
    return (← holds r (!negated) c).map (!·)
  | .both a b => do
    match ← holds r false a with
    | some true => holds r false b
    | answer => return answer
  | .either a b => do
    match ← holds r false a with
    | some false => holds r false b
    | answer => return answer

end CompilerRemarks.Shell
