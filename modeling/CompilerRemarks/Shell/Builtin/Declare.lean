/-
  CompilerRemarks.Shell.Builtin.Declare

  Builtins that declare, set and remove variables.
-/
import CompilerRemarks.Shell.Builtin.Basic

namespace CompilerRemarks.Shell

/-! ## Assignments -/

/-- The expanded value of an assignment. -/
inductive Ready where
  | text (s : List Char)
  | elements (items : List (Option (List Char) × List Char))

/-- An assignment whose words are expanded. -/
structure Assignment where
  name : List Char
  subscript : Option (List Char)
  adds : Bool
  value : Ready

/-- Expands the words of an assignment. -/
def expandSetting (r : Runner) (s : Setting) : Act Assignment := do
  let subscript ← match s.subscript with
    | some source => pure (some (← expandSource r source))
    | none => pure none
  match s.value with
  | .single w => return ⟨s.name, subscript, s.adds, .text (← expandText r w)⟩
  | .elements items =>
    let mut out : List (Option (List Char) × List Char) := []
    for (key, w) in items do
      if ← goesOn then
        match key with
        | some source =>
          let inside ← expandSource r source
          let value ← expandText r w
          out := out ++ [(some inside, value)]
        | none =>
          let texts ← expandWords r [w]
          out := out ++ texts.map (none, ·)
    return ⟨s.name, subscript, s.adds, .elements out⟩

/-- Carries out an assignment. -/
def Assignment.apply (title : String) (a : Assignment) : Act Bool :=
  match a.value with
  | .text s => assignText title a.name a.subscript a.adds s
  | .elements items => assignElements title a.name a.adds items

/-- An assignment as the trace of the plain shell shows it. -/
def Assignment.plainTrace (a : Assignment) : List Char :=
  match a.value with
  | .text s => a.name ++ '=' :: s
  | .elements _ => a.name ++ ['=']

/-- An assignment as a trace shows it. -/
def Assignment.trace (a : Assignment) : List Char :=
  let subscript := match a.subscript with
    | some s => '[' :: s ++ [']']
    | none => []
  let sign := if a.adds then ['+', '='] else ['=']
  let value := match a.value with
    | .text s => if s.isEmpty then [] else traced s
    | .elements items =>
      '(' :: joinWith [' '] (items.map fun (key, s) => match key with
        | some k => '[' :: k ++ [']', '='] ++ traced s
        | none => traced s) ++ [')']
  a.name ++ subscript ++ sign ++ value

/-- The assignment that an argument spells. -/
def assignmentOf? (s : List Char) : Option Assignment :=
  let (head, tail) := s.span (· ≠ '=')
  match tail with
  | [] => none
  | _ :: value =>
    let (adds, head) := if head.getLast? == some '+' then (true, head.dropLast) else (false, head)
    let (name, rest) := head.span (· ≠ '[')
    let subscript := if rest.isEmpty then none else some ((rest.drop 1).dropLast)
    if isName name then some ⟨name, subscript, adds, .text value⟩ else none

/-! ## Showing variables -/

/-- The letters of the attributes of a variable. -/
def Variable.letters (v : Variable) : List Char :=
  let kind := match v.value with
    | some (.listed _) => ['a']
    | some (.keyed _) => ['A']
    | _ => []
  let all := kind ++ (if v.integer then ['i'] else []) ++
    (if v.casing == some false then ['l'] else []) ++ (if v.readOnly then ['r'] else []) ++
    (if v.casing == some true then ['u'] else []) ++ (if v.exported then ['x'] else [])
  if all.isEmpty then ['-'] else all

/-- A variable as a declaration. -/
def Variable.shown (v : Variable) : List Char :=
  let value : List Char := match v.value with
    | none => []
    | some (.text s) => '=' :: declaredText s
    | some (.listed items) =>
      "=(".toList ++ joinWith [' '] (items.map fun (n, s) =>
        '[' :: Nat.toDigits 10 n ++ "]=".toList ++ declaredText s) ++ [')']
    | some (.keyed items) =>
      "=(".toList ++ ((Value.keyed items).elements.flatMap fun (k, s) =>
        '[' :: (if hasShellSigns none k then declaredText k else k) ++ "]=".toList ++
          declaredText s ++ [' ']) ++ [')']
  "declare -".toList ++ v.letters ++ ' ' :: v.name ++ value ++ ['\n']

/-- Variables in the order of their names. -/
def sortedVariables (vs : List Variable) : List Variable :=
  vs.mergeSort fun a b => Path.charsLe a.name b.name

/-! ## Declaring -/

/-- What a declaration asks for. -/
structure Declaration where
  /-- The builtin. -/
  title : String
  /-- The letters that are turned on and off. -/
  on : List Char
  off : List Char
  /-- Whether the variables belong to the function that is running. -/
  isLocal : Bool

/-- The attributes that a declaration gives to a variable. -/
def Declaration.mark (k : Declaration) (v : Variable) : Variable :=
  let has (c : Char) (old : Bool) : Bool := (old || k.on.contains c) && !k.off.contains c
  { v with
    exported := has 'x' v.exported
    readOnly := has 'r' v.readOnly
    integer := has 'i' v.integer
    casing := if k.on.contains 'u' then some true else if k.on.contains 'l' then some false
      else v.casing
    value := match v.value with
      | some (.text s) =>
        if k.on.contains 'a' then some (.listed [(0, s)]) else v.value
      | some _ => v.value
      | none =>
        if k.on.contains 'A' then some (.keyed [])
        else if k.on.contains 'a' then some (.listed [])
        else none }

/-- Declares one variable. -/
def declareOne (k : Declaration) (name : List Char) (a : Option Assignment) : Act Unit := do
  let m ← get
  let isArray : Bool := match a with
    | some ⟨_, _, _, .elements _⟩ => true
    | some ⟨_, some _, _, _⟩ => true
    | _ => false
  let k := if isArray && !k.on.contains 'A' then { k with on := 'a' :: k.on } else k
  let own := (m.frames.head?.bind fun frame => frame.find? (·.name == name))
  let old := if k.isLocal then own else if k.on.contains 'g' then m.find? name else m.find? name
  let refused := ((m.find? name).map (·.readOnly)).getD false && a.isSome
  if refused then
    match m.dialect with
    | .bash =>
      complain (String.ofList name ++ ": readonly variable")
      endWith 1
    | .plain => failSpecial k.title (String.ofList name ++ ": is read only") 2
  else
    let v := old.getD (.unset name)
    let marked := ({ k with on := k.on.filter (· != 'r') } : Declaration).mark v
    if k.isLocal then modify (·.putLocal marked)
    else if k.on.contains 'g' then modify (·.putGlobal marked)
    else modify (·.put marked)
    match a with
    | some a =>
      if !(← a.apply (k.title ++ ": ")) then endWith 1
    | none => pure ()
    if k.on.contains 'r' then
      match (← get).find? name with
      | some v => modify (·.put { v with readOnly := true })
      | none => pure ()

/-- Declares variables: names alone, and assignments. -/
def declareAll (k : Declaration) (names : List (List Char)) (settings : List Assignment) : Act Unit := do
  for s in names do
    if ← goesOn then
      match assignmentOf? s with
      | some a => declareOne k a.name (some a)
      | none =>
        if isName s then declareOne k s none
        else
          match (← get).dialect with
          | .bash => failAs k.title ("`" ++ String.ofList s ++ "': not a valid identifier") 1
          | .plain =>
            failSpecial k.title (String.ofList (s.takeWhile (· ≠ '=')) ++ ": bad variable name") 2
  for a in settings do
    if ← goesOn then declareOne k a.name (some a)

/-- Divides arguments into the letters that are turned on or off, and names. -/
def declarationLetters : List (List Char) → List Char × List Char × List (List Char)
  | ['-', '-'] :: rest => ([], [], rest)
  | ('-' :: c :: letters) :: rest =>
    let (on, off, names) := declarationLetters rest
    (c :: letters ++ on, off, names)
  | ('+' :: c :: letters) :: rest =>
    let (on, off, names) := declarationLetters rest
    (on, c :: letters ++ off, names)
  | rest => ([], [], rest)

/-- Shows variables, or complains about those that are not there. -/
def showVariables (names : List (List Char)) : Act Unit := do
  let m ← get
  for name in names do
    match m.find? name with
    | some v => emit "declare: " (bytesOf v.shown)
    | none => failAs "declare" (String.ofList name ++ ": not found") 1

/-- Declares variables with attributes. -/
def runDeclare (title : String) (args : List (List Char)) (settings : List Assignment) : Act Unit := do
  let m ← get
  let (on, off, names) := declarationLetters args
  endWith 0
  match (on ++ off).find? fun c => !"aAfFgiIlnprtux".toList.contains c with
  | some c =>
    failUsage title (title ++ " [-aAfFgiIlnrtux] [name[=value] ...] or " ++ title ++
      " -p [-aAfFilnrtux] [name ...]") ['-', c]
  | none =>
    if on.contains 'f' || on.contains 'F' then
      for name in names do
        if m.functions.any (·.name == name) then
          if on.contains 'F' then emit "declare: " (bytesOf (name ++ ['\n']))
        else endWith 1
    else if on.contains 'p' then
      if names.isEmpty then
        emit "declare: " (bytesOf ((sortedVariables m.visible).flatMap Variable.shown))
      else showVariables names
    else
      let isLocal := !m.calls.isEmpty && !on.contains 'g'
      declareAll ⟨title, on, off, isLocal⟩ names settings

/-- Declares variables of the function that is running. -/
def runLocal (args : List (List Char)) (settings : List Assignment) : Act Unit := do
  let m ← get
  endWith 0
  if m.calls.isEmpty then
    match m.dialect with
    | .bash => failAs "local" "can only be used in a function" 1
    | .plain => failSpecial "local" "not in a function" 2
  else
    let (on, off, names) := if m.isBash then declarationLetters args else ([], [], args)
    declareAll ⟨"local", on, off, true⟩ names settings

/-- Hands variables on to programs, or forbids their change. -/
def runMark (title : String) (letter : Char) (args : List (List Char))
    (settings : List Assignment) : Act Unit := do
  let m ← get
  endWith 0
  let (on, _, names) := declarationLetters args
  if on.contains 'f' then endWith 0
  else if on.contains 'p' || (names.isEmpty && settings.isEmpty) then
    let chosen := m.visible.filter fun v => v.letters.contains letter
    match m.dialect with
    | .bash => emit (title ++ ": ") (bytesOf ((sortedVariables chosen).flatMap Variable.shown))
    | .plain =>
      let line (v : Variable) : List Char :=
        title.toList ++ ' ' :: v.name ++ (match v.value.bind Value.text? with
          | some s => '=' :: singleQuoted s
          | none => []) ++ ['\n']
      emit (title ++ ": ") (bytesOf ((sortedVariables chosen).flatMap line))
  else
    let isTurnedOff := on.contains 'n'
    let attributes := on.filter fun c => c == 'a' || c == 'A'
    declareAll ⟨title, if isTurnedOff then attributes else letter :: attributes,
      if isTurnedOff then [letter] else [], false⟩ names settings

/-! ## Removing -/

/-- Removes an element of an array. -/
def removeElement (name source : List Char) : Act Unit := do
  let m ← get
  match m.find? name with
  | none => pure ()
  | some v =>
    match v.value with
    | some (.keyed items) =>
      modify (·.put { v with value := some (.keyed (items.filter (·.1 != keyOf source))) })
    | some (.listed items) =>
      match ← calculateOrDiscard "unset: " source with
      | some n =>
        match elementNumber? v.value n with
        | some k => modify (·.put { v with value := some (.listed (items.filter (·.1 != k))) })
        | none => failAs "unset" ("[" ++ String.ofList source ++ "]: bad array subscript") 1
      | none => pure ()
    | _ => if source == ['0'] then modify (·.erase name)

/-- Removes variables or functions. -/
def runUnset (args : List (List Char)) : Act Unit := do
  let m ← get
  endWith 0
  let isOption := fun (a : List Char) => a.length > 1 && a.head? == some '-'
  let options := args.takeWhile isOption
  let names := args.drop options.length
  let letters := options.flatMap (·.drop 1)
  match letters.find? fun c => c != 'f' && c != 'v' && c != 'n' && c != '-' with
  | some c =>
    match m.dialect with
    | .bash => failUsage "unset" "unset [-f] [-v] [-n] [name ...]" ['-', c]
    | .plain => failSpecial "unset" ("Illegal option -" ++ c.toString) 2
  | none =>
    for s in names do
      if ← goesOn then
        let m ← get
        let (name, tail) := s.span (· ≠ '[')
        if letters.contains 'f' then
          modify fun m => { m with functions := m.functions.filter (·.name != s) }
        else if !isName name && !m.isBash then
          failSpecial "unset" (String.ofList s ++ ": bad variable name") 2
        else if ((m.find? name).map (·.readOnly)).getD false then
          match m.dialect with
          | .bash => failAs "unset" (String.ofList name ++ ": cannot unset: readonly variable") 1
          | .plain => failSpecial "unset" (String.ofList name ++ ": is read only") 2
        else if !tail.isEmpty then removeElement name ((tail.drop 1).dropLast)
        else if (m.find? name).isSome then modify (·.erase name)
        else if m.isBash && !letters.contains 'v' then
          modify fun m => { m with functions := m.functions.filter (·.name != s) }

/-! ## Values -/

/-- Calculates expressions and ends by the last one. -/
def runLet (args : List (List Char)) : Act Unit := do
  if args.isEmpty then failAs "let" "expression expected" 1
  else
    let mut last : Option Int := some 0
    for s in args do
      if last.isSome then last ← calculate "let: " s
    endWith (match last with
      | some n => if n == 0 then 1 else 0
      | none => 1)

/-- Prints by a format, into a variable if one is named. -/
def runPrintf (args : List (List Char)) : Act Unit := do
  let m ← get
  let usage := match m.dialect with
    | .bash => "printf [-v var] format [arguments]"
    | .plain => "printf format [arg ...]"
  let shows (target : Option (List Char)) (args : List (List Char)) : Act Unit := do
    match args with
    | [] =>
      match m.dialect with
      | .bash =>
        complainLine ("printf: usage: " ++ usage)
        endWith 2
      | .plain => failAs "printf" ("usage: " ++ usage) 2
    | format :: rest =>
      let (pieces, code) := printf m.dialect format rest
      endWith code
      let mut kept : List UInt8 := []
      for piece in pieces do
        match piece with
        | .inl bytes =>
          if target.isSome then kept := kept ++ bytes else emit "printf: " bytes
        | .inr f => complainAs "printf" (f.message m.dialect)
      match target with
      | some s =>
        let (name, tail) := s.span (· ≠ '[')
        let subscript := if tail.isEmpty then none else some ((tail.drop 1).dropLast)
        let _ ← assignText "printf: " name subscript false (textOf kept)
      | none => pure ()
  match m.dialect, args with
  | _, ['-', '-'] :: rest => shows none rest
  | .bash, ['-', 'v'] :: name :: rest =>
    if isName (name.takeWhile (· ≠ '[')) then shows (some name) rest
    else failAs "printf" ("`" ++ String.ofList name ++ "': not a valid identifier") 2
  | .bash, [['-', 'v']] =>
    complainAs "printf" "-v: option requires an argument"
    complainLine ("printf: usage: " ++ usage)
    endWith 2
  | _, ('-' :: c :: more) :: rest =>
    if m.isBash && c == 'v' then
      if isName (more.takeWhile (· ≠ '[')) then shows (some more) rest
      else failAs "printf" ("`" ++ String.ofList more ++ "': not a valid identifier") 2
    else failUsage "printf" usage ['-', c]
  | _, args => shows none args

end CompilerRemarks.Shell
