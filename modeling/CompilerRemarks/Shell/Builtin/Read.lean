/-
  CompilerRemarks.Shell.Builtin.Read

  Builtins that read lines into variables.
-/
import CompilerRemarks.Shell.Builtin.Declare

namespace CompilerRemarks.Shell

/-! ## Lines -/

/-- How a line is read. -/
structure LineStyle where
  /-- Backslashes stand for themselves. -/
  raw : Bool
  delimiter : Char
  /-- At most this many characters. -/
  most : Option Nat
  /-- The delimiter does not end the line. -/
  exact : Bool

/-- A line that was read: its characters, those after a backslash marked, how
    many bytes it took, and whether it has an end. -/
structure LineRead where
  chars : List Marked
  size : Nat
  isEnded : Bool

/-- Reads a line from the start of a text; `taken` characters were read. -/
def LineStyle.read (style : LineStyle) : Nat → Nat → List Marked → List Char → LineRead
  | size, taken, acc, s =>
    if style.most == some taken then ⟨acc.reverse, size, true⟩
    else
      match s with
      | [] => ⟨acc.reverse, size, false⟩
      | '\\' :: rest =>
        if style.raw then
          if '\\' == style.delimiter && !style.exact then ⟨acc.reverse, size + 1, true⟩
          else style.read (size + 1) (taken + 1) (('\\', false) :: acc) rest
        else
          match rest with
          | [] => ⟨acc.reverse, size + 1, false⟩
          | '\n' :: rest => style.read (size + 2) taken acc rest
          | c :: rest => style.read (size + 2) (taken + 1) ((c, true) :: acc) rest
      | c :: rest =>
        if c == style.delimiter && !style.exact then ⟨acc.reverse, size + 1, true⟩
        else if c == '\x00' then style.read (size + 1) taken acc rest
        else style.read (size + 1) (taken + 1) ((c, false) :: acc) rest

/-- Whether a character separates fields, and whether as a blank. -/
def isSeparator (separators : List Char) (c : Marked) : Bool :=
  !c.2 && separators.contains c.1

/-- Whether a character is a blank among the separators. -/
def isBlankSeparator (separators : List Char) (c : Marked) : Bool :=
  isSeparator separators c && (isGap c.1 || c.1 == '\n')

/-- What follows the separators after a field. -/
def afterField (separators : List Char) (s : List Marked) : List Marked :=
  let s := s.dropWhile (isBlankSeparator separators)
  match s with
  | c :: rest =>
    if isSeparator separators c then rest.dropWhile (isBlankSeparator separators) else s
  | [] => []

/-- The first fields of a line, one for each name; the last name gets all that
    is left. -/
def fieldsFor (separators : List Char) : Nat → List Marked → List (List Char)
  | 0, _ => []
  | 1, s =>
    let word := s.takeWhile (!isSeparator separators ·)
    let rest := s.drop word.length
    if (afterField separators rest).isEmpty then [word.map (·.1)]
    else
      let trimmed := (s.reverse.dropWhile (isBlankSeparator separators)).reverse
      [trimmed.map (·.1)]
  | n + 1, s =>
    let word := s.takeWhile (!isSeparator separators ·)
    word.map (·.1) :: fieldsFor separators n (afterField separators (s.drop word.length))

/-- All fields of a line. -/
def allFields (separators : List Char) : Nat → List Marked → List (List Char)
  | 0, _ => []
  | _, [] => []
  | fuel + 1, s =>
    let word := s.takeWhile (!isSeparator separators ·)
    word.map (·.1) :: allFields separators fuel (afterField separators (s.drop word.length))

/-! ## Reading a line -/

/-- The options of `read`. -/
structure ReadOptions where
  style : LineStyle
  stream : Nat
  array : Option (List Char)
  prompt : List Char
  names : List (List Char)
  wrong : Option (List Char)
  /-- Whether it is only asked if anything can be read. -/
  looks : Bool

/-- Reads the letters of the options of `read`. -/
def readOptions : Nat → ReadOptions → List (List Char) → ReadOptions
  | 0, o, _ => o
  | _, o, [] => o
  | fuel + 1, o, word :: rest =>
    match word with
    | ['-', '-'] => { o with names := rest }
    | '-' :: c :: letters =>
      let takes := "adinNptu".toList.contains c
      if !takes then
        let rest := if letters.isEmpty then rest else ('-' :: letters) :: rest
        if c == 'r' then readOptions fuel { o with style := { o.style with raw := true } } rest
        else if c == 's' || c == 'e' then readOptions fuel o rest
        else { o with wrong := some ['-', c] }
      else
        let (value, rest) := if letters.isEmpty then (rest.headD [], rest.drop 1) else (letters, rest)
        let number := Text.digits? 10 value
        let o := match c with
          | 'a' => { o with array := some value }
          | 'd' => { o with style := { o.style with delimiter := value.headD '\x00' } }
          | 'n' => { o with style := { o.style with most := number } }
          | 'N' => { o with style := { o.style with most := number, exact := true } }
          | 'p' => { o with prompt := value }
          | 't' => { o with looks := number == some 0 }
          | 'u' => { o with stream := number.getD 0 }
          | _ => o
        readOptions fuel o rest
    | _ => { o with names := word :: rest }

/-- Assigns a text that was read. -/
def assignRead (name s : List Char) : Act Unit := do
  let m ← get
  let (plain, tail) := name.span (· ≠ '[')
  let subscript := if tail.isEmpty then none else some ((tail.drop 1).dropLast)
  if !isName plain then
    match m.dialect with
    | .bash => failAs "read" ("`" ++ String.ofList name ++ "': not a valid identifier") 1
    | .plain => failAs "read" (String.ofList name ++ ": bad variable name") 2
  else if ((m.find? plain).map (·.readOnly)).getD false then
    match m.dialect with
    | .bash =>
      complain (String.ofList plain ++ ": readonly variable")
      endWith 1
    | .plain => failAs "read" (String.ofList plain ++ ": is read only") 2
  else
    let _ ← assignText "read: " plain subscript false s

/-- Reads a line into variables. -/
def runRead (args : List (List Char)) : Act Unit := do
  let m ← get
  let start : ReadOptions :=
    ⟨⟨false, '\n', none, false⟩, 0, none, [], [], none, false⟩
  let o := readOptions (args.length * 8 + 8) start args
  match o.wrong with
  | some option =>
    failUsage "read" ("read [-ers] [-a array] [-d delim] [-i text] [-n nchars] [-N nchars] " ++
      "[-p prompt] [-t timeout] [-u fd] [name ...]") option
  | none =>
    if !m.isBash && o.names.isEmpty then failAs "read" "arg count" 2
    else
      match o.names.find? fun s => m.isBash && !isName (s.takeWhile (· ≠ '[')) with
      | some name => failAs "read" ("`" ++ String.ofList name ++ "': not a valid identifier") 1
      | none =>
        match m.behind? o.stream with
        | none =>
          failAs "read" (Text.decimal o.stream ++ ": invalid file descriptor: Bad file descriptor") 1
        | some n =>
          match m.unread n with
          | .error e =>
            failAs "read" ("read error: " ++ Text.decimal o.stream ++ ": " ++ reason e) 1
          | .ok bytes =>
            if o.looks then endWith (if bytes.isEmpty then 1 else 0)
            else
              let line := o.style.read 0 0 [] (textOf bytes)
              consume n line.size
              endWith (if line.isEnded then 0 else 1)
              let separators := m.separators
              let trimmed := line.chars.dropWhile (isBlankSeparator separators)
              match o.array with
              | some name =>
                let _ ← assignElements "read: " name false
                  ((allFields separators (trimmed.length + 1) trimmed).map (none, ·))
              | none =>
                if o.names.isEmpty then assignRead "REPLY".toList (line.chars.map (·.1))
                else if o.style.exact then
                  for (name, k) in o.names.zipIdx do
                    assignRead name (if k == 0 then line.chars.map (·.1) else [])
                else
                  let values := fieldsFor separators o.names.length trimmed
                  for (name, value) in o.names.zip values do
                    assignRead name value

/-! ## Reading all lines -/

/-- The lines of a text, each with its end unless `strips`. -/
def linesOf (delimiter : Char) (strips : Bool) : List Char → List Char → List (List Char)
  | [], [] => []
  | acc, [] => [acc.reverse]
  | acc, c :: rest =>
    if c == delimiter then
      (if strips then acc.reverse else (c :: acc).reverse) :: linesOf delimiter strips [] rest
    else linesOf delimiter strips (c :: acc) rest

/-- What `mapfile` was asked for. -/
structure LinesOptions where
  strips : Bool
  delimiter : Char
  skip : Nat
  most : Nat
  origin : Option Nat
  stream : Nat
  name : List Char
  wrong : Option (List Char)

/-- Reads the letters of the options of `mapfile`. -/
def linesOptions : Nat → LinesOptions → List (List Char) → LinesOptions
  | 0, o, _ => o
  | _, o, [] => o
  | fuel + 1, o, word :: rest =>
    match word with
    | ['-', '-'] => linesOptions fuel o rest
    | '-' :: c :: letters =>
      if c == 't' then
        linesOptions fuel { o with strips := true }
          (if letters.isEmpty then rest else ('-' :: letters) :: rest)
      else if !"dnOsuCc".toList.contains c then { o with wrong := some ['-', c] }
      else
        let (value, rest) := if letters.isEmpty then (rest.headD [], rest.drop 1) else (letters, rest)
        let number := (Text.digits? 10 value).getD 0
        let o := match c with
          | 'd' => { o with delimiter := value.headD '\x00' }
          | 'n' => { o with most := number }
          | 'O' => { o with origin := some number }
          | 's' => { o with skip := number }
          | 'u' => { o with stream := number }
          | _ => o
        linesOptions fuel o rest
    | name => { o with name := name }

/-- Reads lines into an array. -/
def runLines (title : String) (args : List (List Char)) : Act Unit := do
  let start : LinesOptions := ⟨false, '\n', 0, 0, none, 0, "MAPFILE".toList, none⟩
  let o := linesOptions (args.length * 8 + 8) start args
  match o.wrong with
  | some option =>
    failUsage title (title ++ " [-d delim] [-n count] [-O origin] [-s count] [-t] [-u fd] " ++
      "[-C callback] [-c quantum] [array]") option
  | none =>
    let bytes ← drain o.stream
    let lines := (linesOf o.delimiter o.strips [] (textOf bytes)).drop o.skip
    let lines := if o.most == 0 then lines else lines.take o.most
    endWith 0
    let origin := o.origin.getD 0
    let items := (lines.zipIdx origin).map fun (s, k) => (some (Nat.toDigits 10 k), s)
    let _ ← assignElements (title ++ ": ") o.name o.origin.isSome items

end CompilerRemarks.Shell
