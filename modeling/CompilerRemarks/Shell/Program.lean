/-
  CompilerRemarks.Shell.Program

  The programs that scripts call: printing files whole or in part, and
  waiting.
-/
import CompilerRemarks.Shell.Format
import CompilerRemarks.Shell.Stream
import CompilerRemarks.Shell.Test

namespace CompilerRemarks.Shell

/-- The reason of a file error in the words of a program. -/
def reason : FileError → String
  | .missing => "No such file or directory"
  | .notDirectory => "Not a directory"
  | .isDirectory => "Is a directory"
  | .denied => "Permission denied"
  | .notProgram => "Exec format error"
  | .nameTooLong => "File name too long"
  | .nulInName => "Invalid argument"
  | .nulInArgument => "Invalid argument"
  | .notText => "Input/output error"

/-! ## Options -/

/-- An option of a program. -/
structure ProgramOption where
  letter : Char
  long : String
  takesValue : Bool

/-- What the arguments of a program say. -/
structure Arguments where
  /-- Options by letter with their values, in order. -/
  options : List (Char × List Char)
  operands : List (List Char)

/-- What is wrong with the arguments of a program. -/
inductive ArgumentFault where
  | letter (c : Char)
  | long (name : List Char)
  | ambiguous (name : List Char) (candidates : List String)
  | lacksValue (c : Char)
  | lacksLongValue (name : String)
  | hasValue (name : String)

/-- Complains about the arguments of a program. -/
def refuseArguments (program : String) (f : ArgumentFault) : Act Nat := do
  let what := match f with
    | .letter c => "invalid option -- '" ++ c.toString ++ "'"
    | .long name => "unrecognized option '" ++ String.ofList name ++ "'"
    | .ambiguous name candidates =>
      "option '" ++ String.ofList name ++ "' is ambiguous; possibilities:" ++
        String.join (candidates.map fun c => " '--" ++ c ++ "'")
    | .lacksValue c => "option requires an argument -- '" ++ c.toString ++ "'"
    | .lacksLongValue name => "option '--" ++ name ++ "' requires an argument"
    | .hasValue name => "option '--" ++ name ++ "' doesn't allow an argument"
  complainLine (program ++ ": " ++ what)
  complainLine ("Try '" ++ program ++ " --help' for more information.")
  return 1

/-- Reads the letters of an option word. -/
def optionLetters (known : List ProgramOption) :
    List Char → List (List Char) → Except ArgumentFault (List (Char × List Char) × List (List Char))
  | [], rest => .ok ([], rest)
  | c :: letters, rest =>
    match known.find? (·.letter == c) with
    | none => .error (.letter c)
    | some o =>
      if !o.takesValue then do
        let (more, rest) ← optionLetters known letters rest
        return ((c, []) :: more, rest)
      else if !letters.isEmpty then .ok ([(c, letters)], rest)
      else
        match rest with
        | value :: rest => .ok ([(c, value)], rest)
        | [] => .error (.lacksValue c)

/-- Reads a long option, of which the start is enough. -/
def longOption (known : List ProgramOption) (word : List Char) (rest : List (List Char)) :
    Except ArgumentFault ((Char × List Char) × List (List Char)) :=
  let (name, tail) := word.span (· ≠ '=')
  let given := String.ofList name
  let found := known.filter fun o => !o.long.isEmpty && name.isPrefixOf o.long.toList
  let exact := known.filter fun o => o.long == given
  match (if exact.isEmpty then found else exact) with
  | [] => .error (.long ('-' :: '-' :: word))
  | [o] =>
    match o.takesValue, tail, rest with
    | false, [], _ => .ok ((o.letter, []), rest)
    | false, _, _ => .error (.hasValue o.long)
    | true, _ :: value, _ => .ok ((o.letter, value), rest)
    | true, [], value :: rest => .ok ((o.letter, value), rest)
    | true, [], [] => .error (.lacksLongValue o.long)
  | several => .error (.ambiguous ('-' :: '-' :: name) (several.map (·.long)))

/-- Reads the arguments of a program. Options may stand after operands. -/
def argumentsOf (known : List ProgramOption) :
    Nat → List (List Char) → Except ArgumentFault Arguments
  | 0, _ => .ok ⟨[], []⟩
  | _, [] => .ok ⟨[], []⟩
  | fuel + 1, word :: rest => do
    match word with
    | ['-', '-'] => return ⟨[], rest⟩
    | '-' :: '-' :: name =>
      let (o, rest) ← longOption known name rest
      let more ← argumentsOf known fuel rest
      return { more with options := o :: more.options }
    | '-' :: c :: letters =>
      let (os, rest) ← optionLetters known (c :: letters) rest
      let more ← argumentsOf known fuel rest
      return { more with options := os ++ more.options }
    | _ =>
      let more ← argumentsOf known fuel rest
      return { more with operands := word :: more.operands }

/-! ## Whole files -/

/-- How `cat` shows what it prints. -/
structure CatStyle where
  numbers : Bool
  /-- Only lines that are not empty have numbers. -/
  filledOnly : Bool
  squeezes : Bool
  ends : Bool
  tabs : Bool
  nonprinting : Bool

/-- The options of `cat`. -/
def catOptions : List ProgramOption :=
  [⟨'A', "show-all", false⟩, ⟨'b', "number-nonblank", false⟩, ⟨'e', "", false⟩,
    ⟨'E', "show-ends", false⟩, ⟨'n', "number", false⟩, ⟨'s', "squeeze-blank", false⟩,
    ⟨'t', "", false⟩, ⟨'T', "show-tabs", false⟩, ⟨'u', "", false⟩,
    ⟨'v', "show-nonprinting", false⟩]

/-- The style that options ask for. -/
def CatStyle.ofOptions (options : List (Char × List Char)) : CatStyle :=
  let has (s : String) : Bool := options.any fun (c, _) => s.toList.contains c
  { numbers := has "nb"
    filledOnly := has "b"
    squeezes := has "s"
    ends := has "AEe"
    tabs := has "ATt"
    nonprinting := has "Aetv" }

/-- Where `cat` stands in the lines that it prints. -/
structure CatState where
  /-- The number of the next line. -/
  number : Nat
  atStart : Bool
  /-- How many empty lines came last. -/
  empties : Nat

/-- The number of a line as it is printed. -/
def lineNumber (n : Nat) : List UInt8 :=
  let digits := Nat.toDigits 10 n
  bytesOf (List.replicate (6 - digits.length) ' ' ++ digits ++ ['\t'])

/-- How a byte is shown. -/
def CatStyle.shown (style : CatStyle) (b : UInt8) : List UInt8 :=
  let n := b.toNat
  let low (n : Nat) : List UInt8 :=
    if n < 32 then [94, (n + 64).toUInt8] else if n == 127 then [94, 63] else [n.toUInt8]
  if n == 9 then (if style.tabs then [94, 73] else [9])
  else if !style.nonprinting then [b]
  else if n < 128 then low n
  else [77, 45] ++ low (n - 128)

/-- Prints one byte. -/
def CatStyle.step (style : CatStyle) (acc : List UInt8 × CatState) (b : UInt8) :
    List UInt8 × CatState :=
  let (out, st) := acc
  let number := if style.numbers && st.atStart then (lineNumber st.number).reverse else []
  let next := if style.numbers && st.atStart then st.number + 1 else st.number
  let mark := if style.ends then [36] else []
  if b == 10 then
    if st.atStart then
      let empties := st.empties + 1
      if style.squeezes && empties > 1 then (out, { st with empties := empties })
      else if style.filledOnly then (10 :: mark ++ out, { st with empties := empties })
      else (10 :: mark ++ number ++ out, ⟨next, true, empties⟩)
    else (10 :: mark ++ out, { st with atStart := true, empties := 0 })
  else ((style.shown b).reverse ++ number ++ out, ⟨next, false, 0⟩)

/-- Reads an operand: a file, or standard input. -/
def readOperand (name : List Char) : Act (Except String (List UInt8)) := do
  let m ← get
  if name == ['-'] then
    match m.input 0 with
    | none => return .error "Bad file descriptor"
    | some (.ok _) => return .ok (← drain 0)
    | some (.error e) => return .error (reason e)
  else
    match m.streamOf? name with
    | some stream =>
      if (m.behind? stream).isSome then return .ok (← drain stream)
      else return .error (reason .missing)
    | none =>
      match m.files.read (pathOf name) with
      | .ok bytes => return .ok bytes
      | .error e => return .error (reason e)

/-- Prints files one after the other. -/
def cat (args : List (List Char)) : Act Nat := do
  match argumentsOf catOptions (args.length + 1) args with
  | .error f => refuseArguments "cat" f
  | .ok given =>
    let style := CatStyle.ofOptions given.options
    let isPlain := !(style.numbers || style.squeezes || style.ends || style.tabs || style.nonprinting)
    let mut state : CatState := ⟨1, true, 0⟩
    let mut code := 0
    for name in (if given.operands.isEmpty then [['-']] else given.operands) do
      match ← readOperand name with
      | .ok bytes =>
        let (out, after) := if isPlain then (bytes, state) else
          let (out, after) := bytes.foldl style.step ([], state)
          (out.reverse, after)
        state := after
        if !(← write Emission.output out) && code == 0 then
          complainLine "cat: standard output: Bad file descriptor"
          code := 1
      | .error why =>
        complainLine ("cat: " ++ String.ofList (nameText name) ++ ": " ++ why)
        code := 1
    return code

/-! ## Starts of files -/

/-- How much of a file `head` prints. -/
structure Amount where
  /-- Lines, or else bytes. -/
  lines : Bool
  /-- All but the last ones. -/
  butLast : Bool
  count : Nat

/-- The first lines of some bytes. -/
def takeLines : Nat → List UInt8 → List UInt8
  | 0, _ => []
  | _, [] => []
  | n + 1, b :: rest => b :: takeLines (if b == 10 then n else n + 1) rest

/-- The number of lines, of which the last may have no end. -/
def countLines (bytes : List UInt8) : Nat :=
  bytes.count 10 + (if bytes.getLast? == some 10 || bytes.isEmpty then 0 else 1)

/-- The part of some bytes that `head` prints. -/
def Amount.take (a : Amount) (bytes : List UInt8) : List UInt8 :=
  if a.lines then
    takeLines (if a.butLast then countLines bytes - a.count else a.count) bytes
  else bytes.take (if a.butLast then bytes.length - a.count else a.count)

/-- How much a program reads at once. -/
def blockSize : Nat := 8192

/-- How many bytes are gone after `head` printed some of them from where it
    cannot go back. -/
def Amount.taken (a : Amount) (bytes : List UInt8) : Nat :=
  let printed := (a.take bytes).length
  if a.butLast then bytes.length
  else if !a.lines then printed
  else min bytes.length ((printed + blockSize - 1) / blockSize * blockSize)

/-- The factor of a suffix of an amount. -/
def amountFactor? (s : List Char) : Option Nat :=
  match String.ofList s with
  | "" => some 1
  | "b" => some 512
  | "kB" => some 1000
  | "k" => some 1024
  | "K" => some 1024
  | "KiB" => some 1024
  | "MB" => some 1000000
  | "M" => some 1048576
  | "MiB" => some 1048576
  | "GB" => some 1000000000
  | "G" => some 1073741824
  | "GiB" => some 1073741824
  | _ => none

/-- An amount written as a number, with a minus sign for all but the last. -/
def amount? (lines : Bool) (s : List Char) : Option Amount :=
  let (butLast, body) := match s with
    | '-' :: rest => (true, rest)
    | '+' :: rest => (false, rest)
    | _ => (false, s)
  let (digits, suffix) := body.span Char.isDigit
  match Text.digits? 10 digits, amountFactor? suffix with
  | some n, some factor => some ⟨lines, butLast, n * factor⟩
  | _, _ => none

/-- The options of `head`. -/
def headOptions : List ProgramOption :=
  [⟨'c', "bytes", true⟩, ⟨'n', "lines", true⟩, ⟨'q', "quiet", false⟩, ⟨'q', "silent", false⟩,
    ⟨'v', "verbose", false⟩, ⟨'z', "zero-terminated", false⟩]

/-- Arguments with an amount in the old form, as in `-5`, made plain. -/
def plainAmount (args : List (List Char)) : List (List Char) :=
  match args with
  | ('-' :: c :: more) :: rest =>
    if c.isDigit then
      let (digits, letters) := (c :: more).span Char.isDigit
      let isBytes := letters.contains 'c'
      let others := letters.filter fun k => k == 'q' || k == 'v'
      ['-', if isBytes then 'c' else 'n'] :: digits :: (others.map fun k => ['-', k]) ++ rest
    else args
  | _ => args

/-- Prints the first part of files. -/
def head (args : List (List Char)) : Act Nat := do
  match argumentsOf headOptions (args.length + 4) (plainAmount args) with
  | .error f => refuseArguments "head" f
  | .ok given =>
    let amounts := given.options.filter fun (c, _) => c == 'n' || c == 'c'
    match amounts.find? fun (c, s) => (amount? (c == 'n') s).isNone with
    | some (c, s) =>
      let s := if s.head? == some '-' then s.drop 1 else s
      complainLine ("head: invalid number of " ++ (if c == 'n' then "lines" else "bytes") ++ ": " ++
        String.ofList (quotedValue s))
      return 1
    | none =>
      let amount := ((amounts.getLast?).bind fun (c, s) => amount? (c == 'n') s).getD ⟨true, false, 10⟩
      let titles := (given.options.filter fun (c, _) => c == 'q' || c == 'v').getLast?.map (·.1)
      let operands := if given.operands.isEmpty then [['-']] else given.operands
      let showsTitle := match titles with
        | some c => c == 'v'
        | none => operands.length > 1
      let mut isFirst := true
      let mut code := 0
      for name in operands do
        let m ← get
        let title := if name == ['-'] then "standard input".toList else name
        let banner := if showsTitle then
            bytesOf ((if isFirst then [] else ['\n']) ++ "==> ".toList ++ title ++ " <==\n".toList)
          else []
        let source : Except FileError (Option Nat × List UInt8) :=
          match (if name == ['-'] then some 0 else m.streamOf? name) with
          | some stream =>
            match m.behind? stream with
            | some n => (m.unread n).map (some n, ·)
            | none => .error .missing
          | none => (m.files.read (pathOf name)).map (none, ·)
        match source with
        | .ok (from_, bytes) =>
          let _ ← write Emission.output (banner ++ amount.take bytes)
          isFirst := false
          match from_ with
          | some n =>
            consume n (if m.isSeekable n then (amount.take bytes).length else amount.taken bytes)
          | none => pure ()
        | .error .isDirectory =>
          let _ ← write Emission.output banner
          isFirst := false
          complainLine ("head: error reading " ++ String.ofList (quotedName name) ++ ": " ++
            reason .isDirectory)
          code := 1
        | .error e =>
          complainLine ("head: cannot open " ++ String.ofList (quotedName name) ++
            " for reading: " ++ reason e)
          code := 1
      return code

/-! ## Waiting -/

/-- A time to wait in millionths of a second. -/
def interval? (s : List Char) : Option Nat :=
  match fraction? s with
  | some (false, f, unit) =>
    let factor : Option Nat := match unit with
      | [] => some 1
      | ['s'] => some 1
      | ['m'] => some 60
      | ['h'] => some 3600
      | ['d'] => some 86400
      | _ => none
    factor.map fun k => f.num * k * 1000000 / f.den
  | _ => none

/-- Waits. -/
def sleep (args : List (List Char)) : Act Nat := do
  match argumentsOf [] (args.length + 1) args with
  | .error f => refuseArguments "sleep" f
  | .ok given =>
    let help := "Try 'sleep --help' for more information."
    if given.operands.isEmpty then
      complainLine "sleep: missing operand"
      complainLine help
      return 1
    else
      match given.operands.filter fun s => (interval? s).isNone with
      | [] =>
        let total := given.operands.foldl (fun sum s => sum + (interval? s).getD 0) 0
        modify fun m => { m with clock := m.clock + total }
        return 0
      | wrong =>
        for s in wrong do
          complainLine ("sleep: invalid time interval " ++ String.ofList (quotedValue s))
        complainLine help
        return 1

/-! ## Programs that are builtins too -/

/-- Writes what a builtin printed; `title` starts a complaint. -/
def emit (title : String) (bytes : List UInt8) : Act Unit := do
  if !(← write Emission.output bytes) then fail (title ++ "write error: Bad file descriptor") 1

/-- Prints its arguments. -/
def runEcho (args : List (List Char)) : Act Unit := do
  endWith 0
  emit "echo: " (echo (← get).dialect args)

/-- Ends with the answer of a condition. -/
def runTest (title : String) (args : List (List Char)) : Act Unit := do
  let m ← get
  match m.test args with
  | .ok answer => endWith (if answer then 0 else 1)
  | .error f => fail (title ++ f.message m.dialect) 2

/-- Ends with the answer of a condition in brackets. The plain shell looks at
    the first character of the closing bracket alone; the other one finds that
    bracket where it misses another. -/
def runBracket (args : List (List Char)) : Act Unit := do
  let m ← get
  let isClosed := match m.dialect with
    | .bash => args.getLast? == some [']']
    | .plain => (args.getLast?.bind List.head?) == some ']'
  if !isClosed then fail ("[: " ++ TestFault.unclosed.message m.dialect) 2
  else
    match m.dialect, m.test args.dropLast with
    | .bash, .error (.bracket none) =>
      fail ("[: " ++ (TestFault.bracket (some [']'])).message .bash) 2
    | _, _ => runTest "[: " args.dropLast

end CompilerRemarks.Shell
