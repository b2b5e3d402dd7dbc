/-
  CompilerRemarks.Shell.Machine

  The state of a shell process: what it shares with all other processes, and
  what is its own.
-/
import CompilerRemarks.Files.Standard
import CompilerRemarks.Process.Basic
import CompilerRemarks.Shell.Expr
import CompilerRemarks.Shell.Pattern

namespace CompilerRemarks.Shell

/-! ## Variables -/

/-- The value of a variable. -/
inductive Value where
  | text (s : List Char)
  /-- Elements by number, in order. -/
  | listed (items : List (Nat × List Char))
  /-- Elements by key, the newest first. -/
  | keyed (items : List (List Char × List Char))
  deriving DecidableEq, Repr

/-- A variable of a shell. -/
structure Variable where
  name : List Char
  /-- None for one that is declared but not set. -/
  value : Option Value
  /-- Whether the programs that the shell runs get it too. -/
  exported : Bool
  readOnly : Bool
  /-- Whether what is assigned is an expression. -/
  integer : Bool
  /-- Whether letters are made upper or lower case. -/
  casing : Option Bool
  deriving DecidableEq, Repr

/-- A variable that holds a text and nothing more. -/
def Variable.ofText (name s : List Char) : Variable :=
  ⟨name, some (.text s), false, false, false, none⟩

/-- A variable without a value. -/
def Variable.unset (name : List Char) : Variable :=
  ⟨name, none, false, false, false, none⟩

/-- The bucket of a key in the table of an array with keys, which tells the
    order of its elements. -/
def bucket (key : List Char) : Nat :=
  (bytesOf key).foldl (fun h b => ((h * 16777619) % 4294967296) ^^^ b.toNat) 2166136261 % 1024

/-- The elements of a value with their subscripts. -/
def Value.elements : Value → List (List Char × List Char)
  | .text s => [(['0'], s)]
  | .listed items => items.map fun (n, s) => (Nat.toDigits 10 n, s)
  | .keyed items => items.mergeSort fun a b => bucket a.1 ≤ bucket b.1

/-- The text of a value where a single one is wanted. -/
def Value.text? : Value → Option (List Char)
  | .text s => some s
  | .listed items => items.lookup 0
  | .keyed items => items.lookup ['0']

/-- Puts an element among others by number. -/
def putListed (n : Nat) (s : List Char) : List (Nat × List Char) → List (Nat × List Char)
  | [] => [(n, s)]
  | (k, t) :: rest =>
    if k == n then (n, s) :: rest
    else if n < k then (n, s) :: (k, t) :: rest
    else (k, t) :: putListed n s rest

/-- Puts an element among others by key. -/
def putKeyed (key s : List Char) (items : List (List Char × List Char)) :
    List (List Char × List Char) :=
  if items.any (·.1 == key) then items.map fun (k, t) => if k == key then (k, s) else (k, t)
  else (key, s) :: items

/-! ## Streams -/

/-- An open file, which several streams may share. -/
inductive Description where
  /-- A stream of the whole process tree, seen from outside. -/
  | outer (n : Nat)
  /-- Swallows what is written and holds nothing. -/
  | null
  /-- Chunks that were written and not yet read, and their size. -/
  | pipe (chunks : Array (List UInt8)) (size : Nat)
  | file (place : Place) (offset : Nat) (reads writes appends : Bool)

/-- Something written to a stream that is seen from outside. -/
structure Record where
  time : Nat
  /-- The job that wrote it. -/
  job : Nat
  emission : Emission

/-! ## Processes -/

/-- Why the commands that follow are not run. -/
inductive Leave where
  | exit (e : Exit)
  | returning
  /-- Out of this many loops. -/
  | breaking (levels : Nat)
  /-- To the next round of the loop that is this many levels out. -/
  | continuing (levels : Nat)
  /-- The rest of the commands that were read together is dropped. -/
  | discarding
  /-- So is what was read around them, up to the script itself. -/
  | abandoning
  deriving DecidableEq, Repr

/-- A process in the background. -/
structure Job where
  process : Nat
  number : Nat
  ending : Exit
  /-- When it ends. -/
  finish : Nat

/-- A signal on its way to a process. -/
structure Signal where
  process : Nat
  number : Nat
  time : Nat

/-- A script that reads what is written to a channel. -/
structure Channel where
  description : Nat
  source : List Char

/-- A function with the place of its definition. -/
structure Function where
  name : List Char
  body : Tree
  source : List Char

/-- The state of a shell process. -/
structure Machine where
  -- shared with all processes
  files : Files
  descriptions : Array Description
  /-- The time since the start in millionths of a second. -/
  clock : Nat
  records : Array Record
  nextProcess : Nat
  /-- Signals on their way. -/
  signals : List Signal
  -- of this process
  dialect : Dialect
  process : Nat
  parent : Nat
  /-- The process of the script, which its copies name too. -/
  mainProcess : Nat
  /-- The job that this process belongs to. -/
  job : Nat
  /-- How many copies deep this shell is. -/
  copies : Nat
  /-- The name under which the shell or its script was called. -/
  name : List Char
  /-- The file that complaints name. -/
  source : List Char
  /-- The builtin that runs a script, which complaints of the plain shell
      name. -/
  calling : String
  /-- Whether the script was given as an argument. -/
  isInline : Bool
  arguments : List (List Char)
  /-- Variables of functions, the innermost first, and then the global ones. -/
  frames : List (List Variable)
  functions : List Function
  /-- The names of the functions that are running. -/
  calls : List (List Char)
  /-- The open streams. -/
  streams : List (Nat × Nat)
  options : List String
  extras : List String
  traps : List (String × List Char)
  jobs : List Job
  /-- How the last command ended. -/
  last : Nat
  /-- How the stages of the last pipe ended. -/
  statuses : List Nat
  /-- The last word of the last command. -/
  lastWord : List Char
  leaving : Option Leave
  /-- The signal that ended the last program, as long as nothing was said
      about it. -/
  fallen : Option Nat
  /-- The line of the command that is run. -/
  line : Nat
  /-- How many conditions are being tested. -/
  guards : Nat
  /-- How many loops are running. -/
  loops : Nat
  /-- How many files are being read in. -/
  reading : Nat
  /-- Channels that the current command opened. -/
  channels : List Channel
  /-- The place among the letters of an option word. -/
  optionPlace : Nat
  /-- How deep scripts within scripts are, as a trace shows it. -/
  depth : Nat

/-- An action of a shell. -/
abbrev Act := StateM Machine

/-- The process number of the first shell. -/
def firstProcess : Nat := 4242

namespace Machine

/-! ## Options -/

/-- Whether an option is on. -/
def has (m : Machine) (option : String) : Bool :=
  m.options.contains option

/-- Whether an optional behaviour is on. -/
def allows (m : Machine) (extra : String) : Bool :=
  m.extras.contains extra

/-- The options that have a letter, in the order of their letters. -/
def optionNames : List (Char × String) :=
  [('a', "allexport"), ('b', "notify"), ('e', "errexit"), ('f', "noglob"), ('h', "hashall"),
    ('k', "keyword"), ('m', "monitor"), ('n', "noexec"), ('p', "privileged"), ('t', "onecmd"),
    ('u', "nounset"), ('v', "verbose"), ('x', "xtrace"), ('B', "braceexpand"), ('C', "noclobber"),
    ('E', "errtrace"), ('H', "histexpand"), ('P', "physical"), ('T', "functrace")]

/-- The letters of the options that are on. -/
def optionLetters (m : Machine) : List Char :=
  (optionNames.filter fun (_, name) => m.has name).map (·.1) ++
    (if m.isInline && m.dialect == .bash then ['c'] else [])

/-- Whether this is the shell with extensions. -/
def isBash (m : Machine) : Bool :=
  m.dialect == .bash

/-! ## Variables -/

/-- The variable of a name. -/
def find? (m : Machine) (name : List Char) : Option Variable :=
  m.frames.findSome? fun frame => frame.find? (·.name == name)

/-- Replaces a variable in a frame. -/
def replaceIn (v : Variable) (frame : List Variable) : List Variable :=
  frame.map fun w => if w.name == v.name then v else w

/-- Puts a variable into the innermost frame that knows it, else among the
    global ones. -/
def putIn (v : Variable) : List (List Variable) → List (List Variable)
  | [] => [[v]]
  | [globals] =>
    if globals.any (·.name == v.name) then [replaceIn v globals] else [v :: globals]
  | frame :: rest =>
    if frame.any (·.name == v.name) then replaceIn v frame :: rest else frame :: putIn v rest

/-- Puts a variable where it belongs. -/
def put (m : Machine) (v : Variable) : Machine :=
  { m with frames := putIn v m.frames }

/-- Puts a variable into the innermost frame. -/
def putLocal (m : Machine) (v : Variable) : Machine :=
  match m.frames with
  | frame :: rest => { m with frames := (v :: frame.filter (·.name != v.name)) :: rest }
  | [] => { m with frames := [[v]] }

/-- Puts a variable among the global ones. -/
def putGlobal (m : Machine) (v : Variable) : Machine :=
  match m.frames.reverse with
  | globals :: rest => { m with frames := ((v :: globals.filter (·.name != v.name)) :: rest).reverse }
  | [] => { m with frames := [[v]] }

/-- Removes a variable from the innermost frame that knows it. -/
def eraseIn (name : List Char) : List (List Variable) → List (List Variable)
  | [] => []
  | frame :: rest =>
    if frame.any (·.name == name) then frame.filter (·.name != name) :: rest
    else frame :: eraseIn name rest

/-- Removes a variable. -/
def erase (m : Machine) (name : List Char) : Machine :=
  { m with frames := eraseIn name m.frames }

/-- Sets the text of a variable, whatever its attributes. -/
def setText (m : Machine) (name s : List Char) : Machine :=
  let v := (m.find? name).getD (.unset name)
  m.put { v with value := some (.text s) }

/-- The variables that can be seen, each name once. -/
def visible (m : Machine) : List Variable :=
  m.frames.flatten.foldl (fun seen v =>
    if seen.any (·.name == v.name) then seen else seen ++ [v]) []

/-- The variables that programs get. -/
def exports (m : Machine) : List Variable :=
  m.visible.filter fun v => v.exported && v.value.isSome

/-! ## Complaints -/

/-- How a complaint of the shell itself starts. -/
def label (m : Machine) : String :=
  match m.dialect with
  | .bash => String.ofList m.source ++ ": line " ++ Text.decimal m.line ++ ": "
  | .plain => String.ofList m.name ++ ": " ++ Text.decimal m.line ++ ": " ++ m.calling

/-- Ends a command with a number. -/
def ends (m : Machine) (n : Nat) : Machine :=
  { m with last := n }

/-- The state after another process ran: what is shared is as it left it. -/
def resume (m done : Machine) : Machine :=
  { m with
    files := { done.files with here := m.files.here }
    descriptions := done.descriptions
    clock := done.clock
    records := done.records
    nextProcess := done.nextProcess
    signals := done.signals }

end Machine

/-- Whether the commands that follow are to be run. -/
def goesOn : Act Bool := do
  return (← get).leaving.isNone

/-- Ends a command with a number. -/
def endWith (n : Nat) : Act Unit :=
  modify (·.ends n)

/-- Leaves what is being run. -/
def leave (l : Leave) : Act Unit :=
  modify fun m => { m with leaving := some l }

/-- The path that a text of a shell names. -/
def pathOf (s : List Char) : Path :=
  ⟨String.ofList (outward s)⟩

/-- The path of the working directory. -/
def Machine.directory (m : Machine) : List Char :=
  inward m.files.workingDirectory.text.toList

end CompilerRemarks.Shell
