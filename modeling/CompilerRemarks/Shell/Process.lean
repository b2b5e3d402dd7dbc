/-
  CompilerRemarks.Shell.Process

  Starting shells and copies of them, how they end, and what is said about
  scripts that cannot be read and processes that a signal ended.
-/
import CompilerRemarks.Shell.Builtin.Signal
import CompilerRemarks.Shell.Reader

namespace CompilerRemarks.Shell

/-! ## New shells -/

/-- The variables that every shell starts with. -/
def standardVariables (d : Dialect) (directory : List Char) : List Variable :=
  let plain (name value : String) : Variable := .ofText name.toList value.toList
  let shared := [plain "IFS" " \t\n", plain "OPTIND" "1", plain "PS4" "+ ",
    .ofText "PWD".toList directory]
  match d with
  | .plain => shared
  | .bash =>
    shared ++ [plain "BASH" "/bin/bash", plain "BASH_VERSION" "5.2.15(1)-release",
      plain "OSTYPE" "linux-gnu", plain "HOSTTYPE" "x86_64", plain "MACHTYPE" "x86_64-pc-linux-gnu",
      plain "OPTERR" "1"]

/-- The variables that come from outside. -/
def outerVariables : List Variable :=
  let search := ":".intercalate (Files.searchPath.map (·.text))
  [{ Variable.ofText "PATH".toList search.toList with exported := true },
    { Variable.ofText "HOME".toList "/root".toList with exported := true }]

/-- The options that are on from the start. -/
def standardOptions (d : Dialect) : List String :=
  match d with
  | .bash => ["braceexpand", "hashall", "interactive-comments"]
  | .plain => []

/-- The process from which all others come, with the streams that are seen
    from outside. -/
def Machine.first (files : Files) (name : List Char) : Machine :=
  { files
    descriptions := #[.null, .outer Emission.output, .outer Emission.errors]
    clock := 0
    records := #[]
    nextProcess := firstProcess
    signals := []
    dialect := .bash
    process := 1
    parent := 1
    mainProcess := 1
    job := 0
    copies := 0
    name
    source := name
    calling := ""
    isInline := false
    arguments := []
    frames := [outerVariables]
    functions := []
    calls := []
    streams := [(0, 0), (1, 1), (2, 2)]
    options := []
    extras := []
    traps := []
    jobs := []
    last := 0
    statuses := [0]
    lastWord := []
    leaving := none
    fallen := none
    line := 1
    guards := 0
    loops := 0
    reading := 0
    channels := []
    optionPlace := 0
    depth := 0 }

/-- Variables that come from outside, and then those of the shell itself that
    do not. -/
def inherited (outside own : List Variable) : List Variable :=
  outside ++ own.filter fun v => !outside.any (·.name == v.name)

/-- A shell that another process starts. -/
def Machine.child (m : Machine) (d : Dialect) (name : List Char) (isInline : Bool)
    (arguments : List (List Char)) (options : List String) : Machine :=
  let outside := m.exports.filter fun v => v.name != "PWD".toList && v.name != "IFS".toList
  { m with
    dialect := d
    process := m.nextProcess
    parent := m.process
    mainProcess := m.nextProcess
    nextProcess := m.nextProcess + 1
    copies := 0
    name
    source := name
    calling := ""
    isInline
    arguments
    frames := [inherited outside (standardVariables d m.directory)]
    functions := []
    calls := []
    options := options ++ standardOptions d
    extras := standardExtras
    traps := m.traps.filter (·.2.isEmpty)
    jobs := []
    last := 0
    statuses := [0]
    lastWord := name
    leaving := none
    fallen := none
    line := 1
    guards := 0
    loops := 0
    reading := 0
    channels := []
    optionPlace := 0
    depth := 0 }

/-- A copy of a shell. -/
def Machine.copy (m : Machine) : Machine :=
  { m with
    process := m.nextProcess
    parent := if m.copies == 0 then m.process else m.parent
    nextProcess := m.nextProcess + 1
    copies := m.copies + 1
    traps := m.traps.filter (·.2.isEmpty)
    jobs := m.jobs.take 1
    leaving := none
    channels := [] }

/-- How a process ended. -/
def Machine.ending (m : Machine) : Exit :=
  match m.leaving with
  | some (.exit e) => e
  | _ => .code (m.last % 256)

/-! ## Scripts that cannot be read -/

/-- The line of a script that holds a place. -/
def lineText (src : Source) (rest : List Char) : List Char :=
  let before := src.text.take (src.text.length - rest.length)
  let start := (before.reverse.takeWhile (· ≠ '\n')).reverse
  (start ++ rest.takeWhile (· ≠ '\n')).filter (· != blot)

/-- The token before a place, as a complaint about a condition shows it: the
    last characters of the line up to there without blanks, or the character
    there if it divides commands. -/
def tokenBefore (src : Source) (rest : List Char) : List Char :=
  let line := lineText src rest
  let size := line.length - (rest.takeWhile (· ≠ '\n')).length
  let back := (line.take (size + 1)).reverse.dropWhile isGap
  let ends := fun (c : Char) => isGap c || c == ';' || c == '|' || c == '&'
  match back with
  | c :: _ => if ends c then [c] else (back.takeWhile (!ends ·)).reverse
  | [] => []

/-- A token as the plain shell names it. -/
def tokenTitle (token : List Char) : String :=
  let text := String.ofList token
  let words := ["if", "then", "else", "elif", "fi", "for", "while", "until", "do", "done", "case",
    "esac", "in", "\x7b", "\x7d", "!", ";", "&", "&&", "||", "|", "(", ")", ";;"]
  if text == "newline" then text
  else if words.contains text then "\"" ++ text ++ "\""
  else if (token.head?.map fun c => c == '<' || c == '>').getD false then "redirection"
  else "word"

/-- What is said about a script that cannot be read. -/
def Machine.faultLines (m : Machine) (src : Source) (fault : Fault) : List String :=
  let name := String.ofList (if m.isBash then m.source else m.name)
  let lastLine := src.lineAt []
  let lineAfter := lastLine + (if src.text.getLast? == some '\n' then 0 else 1)
  match m.dialect with
  | .bash =>
    let say (line : Nat) (what : String) : String :=
      name ++ ": " ++ src.origin ++ "line " ++ Text.decimal line ++ ": " ++ what
    let shown (rest : List Char) : String :=
      say (src.lineAt rest) ("`" ++ String.ofList (lineText src rest) ++ "'")
    let missing (mark : Char) : String :=
      "unexpected EOF while looking for matching `" ++ mark.toString ++ "'"
    let ended := say lineAfter "syntax error: unexpected end of file"
    match fault with
    | .unterminated mark place => [say (src.lineAt place) (missing mark)]
    | .unclosed => [say lineAfter (missing ')')]
    | .unexpected token rest _ =>
      [say (src.lineAt rest)
          ("syntax error near unexpected token `" ++ String.ofList token ++ "'"), shown rest]
    | .condition what place rest =>
      what.map (say (src.lineAt place)) ++
        [say (src.lineAt rest) ("syntax error near `" ++ String.ofList (tokenBefore src rest) ++ "'"),
          shown rest]
    | .conditionEnded what place => [say (src.lineAt place) what, ended]
    | .counting what source rest =>
      [say (src.lineAt rest) ("syntax error: " ++ what),
        say (src.lineAt rest) ("syntax error: `((" ++ String.ofList source ++ "))'")]
    | .badName what rest => [say (src.lineAt rest) what]
    | .ended _ => [ended]
  | .plain =>
    let say (line : Nat) (what : String) : List String :=
      [name ++ ": " ++ Text.decimal line ++ ": " ++ m.calling ++ "Syntax error: " ++ what]
    let instead (token wanted : String) : String :=
      token ++ " unexpected" ++
        (if wanted.isEmpty then "" else " (expecting " ++ tokenTitle wanted.toList ++ ")")
    let after (rest : List Char) : Nat := match rest with
      | '\n' :: below => src.lineAt below
      | _ => src.lineAt rest
    match fault with
    | .unterminated '\x60' _ => say lastLine "EOF in backquote substitution"
    | .unterminated ')' _ => say lastLine "Missing '))'"
    | .unterminated '\x7d' place =>
      let tail := (place.drop 2).dropWhile isNameChar
      say (lastLine - (if tail.head? == some '\n' then 1 else 0)) "Missing '\x7d'"
    | .unterminated _ _ => say lastLine "Unterminated quoted string"
    | .unclosed => say lastLine (instead "end of file" ")")
    | .unexpected token rest wanted =>
      say (if token == "newline".toList then after rest else src.lineAt rest)
        (instead (tokenTitle token) wanted)
    | .condition _ _ rest => say (src.lineAt rest) (instead "word" "")
    | .conditionEnded _ _ => say lastLine (instead "end of file" "")
    | .counting _ _ rest => say (src.lineAt rest) "Bad for loop variable"
    | .badName what rest => say (src.lineAt rest) what
    | .ended wanted => say lastLine (instead "end of file" wanted)

/-- Reports a script that cannot be read. The shell that runs it gives up,
    unless it only asked for its value. -/
def reportFault (src : Source) (fault : Fault) : Act Unit := do
  let m ← get
  for line in m.faultLines src fault do
    complainLine line
  endWith 2
  if !(m.isBash && src.origin == "eval: ") then leave (.exit (.code 2))

/-! ## Processes that a signal ended -/

/-- Says that a signal ended a process. -/
def reportSignal (n : Nat) (words : List (List Char)) : Act Unit := do
  let m ← get
  match ((Exit.signal? n).map (·.2)).filter (!·.isEmpty) with
  | none => pure ()
  | some what =>
    if n == 15 || !m.isBash then complainLine what
    else
      let title := what.toList ++ List.replicate (24 - what.length) ' '
      complain (Text.decimal (m.nextProcess - 1) ++ " " ++ String.ofList (title ++ spaced words))

/-! ## Programs on the disk -/

/-- The path of a program: as it is with a slash, else from the search path. -/
def programPath? (files : Files) (name : List Char) : Option Path :=
  if name.contains '/' then some ⟨String.ofList name⟩
  else if name.isEmpty then none
  else
    (Files.searchPath.map (·.join ⟨String.ofList name⟩)).find? files.isExecutable

/-- The parts of a search path. -/
def searchParts (part : List Char) : List Char → List (List Char)
  | [] => [part.reverse]
  | c :: rest => if c == ':' then part.reverse :: searchParts [] rest else searchParts (c :: part) rest

/-- The path of a program that a shell runs. -/
def Machine.programPath? (m : Machine) (name : List Char) : Option (List Char) :=
  if name.contains '/' then some name
  else if name.isEmpty then none
  else
    let dirs := searchParts [] ((m.text? "PATH".toList).getD [])
    let join (dir : List Char) : List Char := if dir.isEmpty then name else dir ++ '/' :: name
    ((dirs.map join).find? fun p => m.files.isExecutable (pathOf p)).orElse fun _ =>
      (dirs.map join).find? fun p => m.files.isFile (pathOf p)

/-- The interpreter on the first line of a script, and its argument. -/
def interpreter? (text : List Char) : Option (List Char × List (List Char)) :=
  match text with
  | '#' :: '!' :: rest =>
    let line := (rest.takeWhile (· ≠ '\n')).dropWhile isGap
    let (program, tail) := line.span (!isGap ·)
    let arg := (tail.dropWhile isGap).reverse.dropWhile isGap
    if program.isEmpty then none
    else some (program, if arg.isEmpty then [] else [arg.reverse])
  | _ => none

/-- What is wrong with a program that cannot be run, in the words of a shell. -/
def Machine.notFound (m : Machine) (name : List Char) : String :=
  let lacksPath := ((m.text? "PATH".toList).getD []).isEmpty
  String.ofList name ++
    (if !m.isBash then ": not found"
      else if lacksPath then ": No such file or directory"
      else ": command not found")

/-- What the arguments of a shell say: whether the script is among them, the
    options, and what follows. -/
structure ShellArguments where
  isInline : Bool
  fromInput : Bool
  options : List String
  rest : List (List Char)

/-- Reads the arguments of a shell. -/
def shellArguments : Nat → ShellArguments → List (List Char) → ShellArguments
  | 0, a, rest => { a with rest := rest }
  | _, a, [] => a
  | fuel + 1, a, word :: rest =>
    match word with
    | ['-', '-'] => { a with rest := rest }
    | ['-'] => { a with rest := rest }
    | '-' :: '-' :: _ => shellArguments fuel a rest
    | '-' :: c :: letters =>
      let all := c :: letters
      let named := all.filterMap fun k => Machine.optionNames.lookup k
      let takes := all.contains 'o' || all.contains 'O'
      let extra := if all.contains 'o' then (rest.take 1).map fun s => String.ofList s else []
      shellArguments fuel
        { a with
          isInline := a.isInline || all.contains 'c'
          fromInput := a.fromInput || all.contains 's'
          options := a.options ++ named ++ extra }
        (if takes then rest.drop 1 else rest)
    | '+' :: _ :: _ => shellArguments fuel a rest
    | _ => { a with rest := word :: rest }

/-! ## Names of commands -/

/-- Words with a meaning of their own. -/
def keywords (d : Dialect) : List String :=
  ["if", "then", "else", "elif", "fi", "for", "while", "until", "do", "done", "case", "esac", "in",
    "\x7b", "\x7d", "!"] ++
    (if d == .bash then ["[[", "]]", "function", "select", "time", "coproc"] else [])

/-- The builtins of a shell. -/
def builtinNames (d : Dialect) : List String :=
  [".", ":", "[", "alias", "bg", "break", "cd", "command", "continue", "echo", "eval", "exec", "exit",
    "export", "false", "fg", "getopts", "hash", "jobs", "kill", "local", "printf", "pwd", "read",
    "readonly", "return", "set", "shift", "test", "times", "trap", "true", "type", "ulimit", "umask",
    "unalias", "unset", "wait"] ++
    (if d == .bash then
      ["bind", "builtin", "caller", "compgen", "complete", "compopt", "declare", "dirs", "disown",
        "enable", "fc", "help", "history", "let", "logout", "mapfile", "popd", "pushd", "readarray",
        "shopt", "source", "suspend", "typeset"]
    else [])

/-- What the name of a command stands for. -/
inductive Meaning where
  | keyword
  | function
  | builtin
  | file (path : List Char)
  | nothing

/-- What the name of a command stands for. -/
def Machine.meaning (m : Machine) (name : List Char) : Meaning :=
  let text := String.ofList name
  if (keywords m.dialect).contains text then .keyword
  else if m.functions.any (·.name == name) then .function
  else if (builtinNames m.dialect).contains text then .builtin
  else
    match m.programPath? name with
    | some p => if m.files.isExecutable (pathOf p) then .file p else .nothing
    | none => .nothing

/-- Tells briefly what names stand for. -/
def tellNames (names : List (List Char)) : Act Unit := do
  let m ← get
  let mut found := false
  for name in names do
    match m.meaning name with
    | .nothing => pure ()
    | .file p =>
      found := true
      emit "command: " (bytesOf (p ++ ['\n']))
    | _ =>
      found := true
      emit "command: " (bytesOf (name ++ ['\n']))
  endWith (if found then 0 else if m.isBash then 1 else 127)

/-- Tells what names stand for. -/
def describeNames (title : String) (names : List (List Char)) : Act Unit := do
  let m ← get
  endWith 0
  for name in names do
    let say (what : String) : Act Unit :=
      emit (title ++ ": ") (bytesOf (name ++ (" is " ++ what ++ "\n").toList))
    match m.meaning name with
    | .keyword => say "a shell keyword"
    | .function => say (if m.isBash then "a function" else "a shell function")
    | .builtin => say "a shell builtin"
    | .file p => say (String.ofList p)
    | .nothing =>
      match m.dialect with
      | .bash => failAs title (String.ofList name ++ ": not found") 1
      | .plain =>
        complainLine (String.ofList name ++ ": not found")
        endWith 127

end CompilerRemarks.Shell
