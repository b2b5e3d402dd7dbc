/-
  CompilerRemarks.Shell.Run

  Running scripts. Every function counts down a fuel, since a script need not
  come to an end.
-/
import CompilerRemarks.Shell.Builtin.Read
import CompilerRemarks.Shell.Condition
import CompilerRemarks.Shell.Process
import CompilerRemarks.Shell.Redirection

namespace CompilerRemarks.Shell

/-! ## Loops -/

/-- Whether a loop goes on after its body was run. -/
def nextRound : Act Bool := do
  match (← get).leaving with
  | none => return true
  | some (.continuing n) =>
    modify fun m => { m with leaving := if n ≤ 1 then none else some (.continuing (n - 1)) }
    return n ≤ 1
  | some (.breaking n) =>
    modify fun m => { m with leaving := if n ≤ 1 then none else some (.breaking (n - 1)) }
    return false
  | some _ => return false

/-- Runs an action as the body of a loop. -/
def inLoop (act : Act Unit) : Act Unit := do
  modify fun m => { m with loops := m.loops + 1 }
  act
  modify fun m => { m with loops := m.loops - 1 }

/-- Runs an action as a condition: its failure is no failure of the script. -/
def asCondition (act : Act Unit) : Act Unit := do
  modify fun m => { m with guards := m.guards + 1 }
  act
  modify fun m => { m with guards := m.guards - 1 }

/-- How a script goes on after a line of it. What is dropped is dropped in the
    text that was read, and all around it up to a script in a file; a script
    that was given as an argument ends then, and so does a copy of a shell. -/
def Machine.afterLine (m : Machine) (src : Source) : Option Leave :=
  match m.leaving with
  | some .discarding => if m.copies > 0 then some (.exit (.code 1)) else none
  | some .abandoning =>
    if m.copies > 0 then some (.exit (.code 1))
    else if src.origin == "-c: " then some (.exit (.code m.last))
    else if src.origin == "" && m.reading == 0 then none
    else some .abandoning
  | l => l

/-! ## Time -/

/-- How long something took, in the form of a report. -/
def timeReport (brief : Bool) (spent : Nat) : List Char :=
  let padded (places n : Nat) : List Char :=
    let digits := Nat.toDigits 10 n
    List.replicate (places - digits.length) '0' ++ digits
  let line (name : String) (spent : Nat) : List Char :=
    let seconds := spent / 1000000
    if brief then
      (name ++ " ").toList ++ Nat.toDigits 10 seconds ++ '.' :: padded 2 (spent % 1000000 / 10000) ++ ['\n']
    else
      (name ++ "\t").toList ++ Nat.toDigits 10 (seconds / 60) ++ 'm' :: Nat.toDigits 10 (seconds % 60) ++
        '.' :: padded 3 (spent % 1000000 / 1000) ++ ['s', '\n']
  (if brief then [] else ['\n']) ++ line "real" spent ++ line "user" 0 ++ line "sys" 0

/-! ## Builtins -/

/-- The builtins that need no other commands. -/
def builtin? (d : Dialect) (name : String) (args : List (List Char)) (settings : List Assignment) :
    Option (Act Unit) :=
  match name with
  | ":" => some (endWith 0)
  | "true" => some (endWith 0)
  | "false" => some (endWith 1)
  | "echo" => some (runEcho args)
  | "printf" => some (runPrintf args)
  | "test" => some (runTest "test: " args)
  | "[" => some (runBracket args)
  | "exit" => some (runExit args)
  | "return" => some (runReturn args)
  | "break" => some (runBreak "break" .breaking args)
  | "continue" => some (runBreak "continue" .continuing args)
  | "shift" => some (runShift args)
  | "set" => some (runSet args)
  | "cd" => some (runDirectory args)
  | "pwd" => some (runWhere args)
  | "export" => some (runMark "export" 'x' args settings)
  | "readonly" => some (runMark "readonly" 'r' args settings)
  | "local" => some (runLocal args settings)
  | "unset" => some (runUnset args)
  | "read" => some (runRead args)
  | "kill" => some (runKill args)
  | "trap" => some (runTrap args)
  | "wait" => some (runWait args)
  | "getopts" => some (runOptionReader args)
  | "type" => some (describeNames "type" args)
  | "hash" => some (endWith 0)
  | "alias" => some (endWith 0)
  | "unalias" => some (endWith 0)
  | "jobs" => some (endWith 0)
  | "ulimit" => some (endWith 0)
  | "umask" => some (do
      endWith 0
      if args.isEmpty then emit "umask: " (bytesOf "0022\n".toList))
  | _ =>
    if d == .plain then none
    else
      match name with
      | "declare" => some (runDeclare "declare" args settings)
      | "typeset" => some (runDeclare "typeset" args settings)
      | "let" => some (runLet args)
      | "shopt" => some (runExtras args)
      | "mapfile" => some (runLines "mapfile" args)
      | "readarray" => some (runLines "readarray" args)
      | "disown" => some (endWith 0)
      | _ => none

/-- The builtins whose failures end the plain shell. -/
def specialBuiltins : List String :=
  [".", ":", "break", "continue", "eval", "exec", "exit", "export", "readonly", "return", "set",
    "shift", "times", "trap", "unset"]

/-! ## Running -/

mutual

/-- What expansion needs of the shell. -/
def runner : Nat → Runner
  | 0 => ⟨fun _ => pure [], fun _ _ => pure []⟩
  | fuel + 1 => ⟨captured fuel, channel fuel⟩

/-- Runs an action in a copy of the shell and tells how that ends: what is
    shared stays, all else is forgotten. -/
def inCopy : Nat → Act Unit → Act Exit
  | 0, _ => pure (.code 0)
  | fuel + 1, act => do
    let before ← get
    modify Machine.copy
    act
    finish fuel
    let done ← get
    set (before.resume done)
    return done.ending

/-- Ends a process: what is to be run at its end is run. -/
def finish : Nat → Act Unit
  | 0 => pure ()
  | fuel + 1 => do
    let m ← get
    let ending := m.ending
    let dies : Bool := match ending with
      | .signal n => n == 9 || !m.isBash
      | .code _ => false
    match m.traps.lookup "EXIT" with
    | some text =>
      if !text.isEmpty && !dies then
        modify fun m =>
          { m with
            leaving := none
            last := ending.number
            guards := 0
            traps := m.traps.filter (·.1 != "EXIT") }
        script ⟨text, m.dialect, 1, "exit trap: "⟩ fuel text
        let after ← get
        match after.leaving, ending with
        | some (.exit _), .code _ => pure ()
        | _, _ => leave (.exit ending)
    | none => pure ()
    let m ← get
    modify fun m => { m with channels := [] }
    let leaving := m.leaving
    let last := m.last
    modify fun m => { m with leaving := none }
    feed fuel m.channels
    modify fun m => { m with leaving := leaving, last := last }

/-- Hands on the signals that have come. -/
def deliver : Nat → Act Unit
  | 0 => pure ()
  | fuel + 1 => do
    let m ← get
    let isMine := fun (s : Signal) => s.process == m.process && s.time ≤ m.clock
    if m.signals.any isMine then
      modify fun m => { m with signals := m.signals.filter (!isMine ·) }
      for s in m.signals.filter isMine do
        if ← goesOn then
          match m.traps.lookup (signalName s.number), s.number == 9 with
          | some text, false =>
            if !text.isEmpty then
              let last := (← get).last
              script ⟨text, m.dialect, m.line, "trap: "⟩ fuel text
              if ← goesOn then endWith last
          | _, _ => if !isHarmless s.number then leave (.exit (.signal s.number))

/-- Runs the lines of a script one after the other. -/
def script (src : Source) : Nat → List Char → Act Unit
  | 0, _ => pure ()
  | fuel + 1, rest => do
    match next? src rest with
    | .error fault => reportFault src fault
    | .ok none => pure ()
    | .ok (some (tree, rest)) =>
      let m ← get
      let isWhole := m.isInline && m.isBash && m.copies == 0 && src.origin == "-c: " &&
        (skipAll rest).isEmpty
      if !m.has "noexec" then run fuel isWhole tree
      modify fun m => { m with leaving := m.afterLine src }
      if ← goesOn then script src fuel rest

/-- The output of a script run in a copy of the shell. -/
def captured : Nat → List Char → Act (List Char)
  | 0, _ => pure []
  | fuel + 1, source => do
    let m ← get
    let n ← allocate (.pipe #[] 0)
    let src : Source := ⟨source, m.dialect, m.line, "command substitution: "⟩
    let ending ← inCopy fuel (do
      bindStream 1 n
      modify fun m =>
        { m with
          depth := m.depth + 1
          options := if m.isBash && !m.allows "inherit_errexit" then
              m.options.filter (· != "errexit")
            else m.options }
      match next? src source with
      | .ok (some (.simple _ [] [] [] [⟨0, none, .read w⟩], rest)) =>
        if (skipAll rest).isEmpty && m.isBash then
          match ← redirect (runner fuel) ⟨0, none, .read w⟩ with
          | none =>
            let bytes ← drain 0
            let _ ← write 1 bytes
            endWith 0
          | some why => fail why 1
        else script src fuel source
      | .ok (some (tree, rest)) =>
        if (skipAll rest).isEmpty then run fuel true tree else script src fuel source
      | _ => script src fuel source)
    match ending with
    | .signal k => if !m.isBash then reportSignal k []
    | .code _ => pure ()
    endWith ending.number
    let text := match (← get).unread n with
      | .ok bytes => textOf bytes
      | .error _ => []
    if text.contains '\x00' && m.isBash then
      complain "warning: command substitution: ignored null byte in input"
    let text := text.filter (· != '\x00')
    return (text.reverse.dropWhile (· == '\n')).reverse

/-- Opens a channel to or from a script and tells its path. -/
def channel : Nat → Bool → List Char → Act (List Char)
  | 0, _, _ => pure []
  | fuel + 1, outward, source => do
    let m ← get
    let used := m.streams.map (·.1)
    let stream := (((List.range 64).reverse).find? fun k => !used.contains k).getD 63
    let n ← allocate (.pipe #[] 0)
    if outward then
      bindStream stream n
      modify fun m => { m with channels := m.channels ++ [⟨n, source⟩] }
    else
      let last := m.last
      let _ ← inCopy fuel (do
        bindStream 1 n
        script ⟨source, m.dialect, m.line, ""⟩ fuel source)
      endWith last
      bindStream stream n
    return "/dev/fd/".toList ++ Nat.toDigits 10 stream

/-- Runs the scripts that read what was written to channels. -/
def feed : Nat → List Channel → Act Unit
  | 0, _ => pure ()
  | _, [] => pure ()
  | fuel + 1, c :: rest => do
    let m ← get
    let last := m.last
    let _ ← inCopy fuel (do
      bindStream 0 c.description
      script ⟨c.source, m.dialect, m.line, ""⟩ fuel c.source)
    endWith last
    feed fuel rest

/-- Runs an action with redirections, and feeds the channels that were opened
    for it. -/
def withRedirects : Nat → List Redirect → Act Unit → Act Unit
  | 0, _, _ => pure ()
  | fuel + 1, rs, act => do
    if rs.isEmpty then act
    else
      let before ← get
      modify fun m => { m with channels := [] }
      match ← redirectAll (runner fuel) rs with
      | some why =>
        modify fun m => { m with streams := before.streams }
        if !why.isEmpty then fail why (if before.isBash then 1 else 2)
      | none => act
      let opened := (← get).channels
      modify fun m => { m with streams := before.streams, channels := before.channels }
      feed fuel opened

/-- Looks at how a command ended: a failure may end the script. -/
def checkFailure : Nat → Act Unit
  | 0 => pure ()
  | fuel + 1 => do
    let m ← get
    if m.last != 0 && m.guards == 0 && m.leaving.isNone then
      match m.traps.lookup "ERR" with
      | some text =>
        if !text.isEmpty && (m.calls.isEmpty || m.has "errtrace") then
          let last := m.last
          modify fun m => { m with guards := m.guards + 1 }
          script ⟨text, m.dialect, m.line, "trap: "⟩ fuel text
          modify fun m => { m with guards := m.guards - 1 }
          if ← goesOn then endWith last
      | none => pure ()
      let m ← get
      if m.has "errexit" && m.leaving.isNone then leave (.exit (.code m.last))

/-- Notes how a command ended and goes on from there. -/
def conclude : Nat → Act Unit
  | 0 => pure ()
  | fuel + 1 => do
    modify fun m => { m with statuses := [m.last] }
    checkFailure fuel
    deliver fuel

/-- Runs a program of the disk. `isLast` tells that the shell gives way to it,
    so that a signal that ends it ends the shell. -/
def execute : Nat → Bool → List Char → List (List Char) → Act Unit
  | 0, _, _, _ => pure ()
  | fuel + 1, isLast, name, args => do
    let m ← get
    match m.programPath? name with
    | none => fail (m.notFound name) 127
    | some path =>
      let p := pathOf path
      match m.files.find p with
      | .error e =>
        let why := match m.dialect with
          | .bash => String.ofList name ++ ": " ++ reason e
          | .plain => String.ofList name ++ ": not found"
        fail why (if e == .notDirectory && m.isBash then 126 else 127)
      | .ok entry =>
        if entry.isDirectory && m.isBash then fail (String.ofList name ++ ": Is a directory") 126
        else if !entry.isExecutable then fail (String.ofList name ++ ": Permission denied") 126
        else
          match ← program fuel entry name args with
          | .code n => endWith n
          | .signal n =>
            if isLast && m.traps.isEmpty then leave (.exit (.signal n))
            else
              endWith (128 + n)
              if m.isBash then modify fun m => { m with fallen := some n }
              else reportSignal n (name :: args)

/-- Runs an executable entry as a process of its own and tells how it ends. -/
def program : Nat → Entry → List Char → List (List Char) → Act Exit
  | 0, _, _, _ => pure (.code 127)
  | fuel + 1, entry, name, args => do
    let m ← get
    let child (d : Dialect) (title : List Char) (isInline : Bool) (options : List String)
        (rest : List (List Char)) (text : List Char) : Act Exit := do
      let before ← get
      let src : Source := ⟨text, d, 1, if isInline then "-c: " else ""⟩
      set (before.child d title isInline rest options)
      script src fuel text
      finish fuel
      let done ← get
      set (before.resume done)
      return done.ending
    match entry with
    | .program known =>
      if known == "bash" || known == "sh" then
        let d : Dialect := if known == "bash" then .bash else .plain
        let given := shellArguments (args.length + 1) ⟨false, false, [], []⟩ args
        match given.isInline, given.rest with
        | true, text :: title :: rest => child d title true given.options rest text
        | true, [text] => child d name true given.options [] text
        | true, [] =>
          complainLine (String.ofList name ++
            (if d == .bash then ": -c: option requires an argument" else ": 0: -c requires an argument"))
          return .code 2
        | false, [] =>
          let text := textOf (← drain 0)
          child d name false given.options [] text
        | false, file :: rest =>
          if given.fromInput then
            let text := textOf (← drain 0)
            child d name false given.options (file :: rest) text
          else
            match m.files.read (pathOf file) with
            | .ok bytes => child d file false given.options rest (textOf bytes)
            | .error e =>
              let (why, code) := match d with
                | .bash =>
                  (String.ofList name ++ ": " ++ String.ofList file ++ ": " ++ reason e,
                    if e == .isDirectory then 126 else 127)
                | .plain => (String.ofList name ++ ": 0: " ++ redirectReason .plain false file e, 2)
              complainLine why
              return .code code
      else
        match known with
        | "cat" => return .code (← cat args)
        | "head" => return .code (← head args)
        | "sleep" => return .code (← sleep args)
        | known =>
          let before ← get
          match builtin? .bash known args [] with
          | some act =>
            modify fun m => { m with dialect := .bash }
            act
            let code := (← get).last
            set { before.resume (← get) with leaving := (← get).leaving }
            return .code code
          | none => return .code 0
    | .file bytes _ =>
      let text := textOf bytes
      match interpreter? text with
      | none => child m.dialect name false [] args text
      | some (path, extra) =>
        match m.files.find (pathOf path) with
        | .ok inner =>
          if inner.isExecutable then program fuel inner path (extra ++ name :: args)
          else
            complain (String.ofList name ++ ": " ++ String.ofList path ++
              ": bad interpreter: Permission denied")
            return .code 126
        | .error _ =>
          complain (String.ofList name ++
            (if m.isBash then ": cannot execute: required file not found" else ": not found"))
          return .code 127
    | _ => return .code 126

/-- Runs a function. -/
def call : Nat → Function → List (List Char) → Act Unit
  | 0, _, _ => pure ()
  | fuel + 1, f, args => do
    let before ← get
    modify fun m =>
      { m with
        arguments := args
        calls := f.name :: m.calls
        frames := [] :: m.frames
        source := f.source
        loops := 0 }
    run fuel false f.body
    modify fun m =>
      { m with
        arguments := before.arguments
        calls := before.calls
        frames := m.frames.drop 1
        source := before.source
        loops := before.loops
        line := before.line
        leaving := match m.leaving with
          | some .returning => none
          | l => l }

/-- Runs a file as part of the script. -/
def readIn : Nat → String → List (List Char) → Act Unit
  | 0, _, _ => pure ()
  | fuel + 1, title, args => do
    let m ← get
    match args with
    | [] =>
      match m.dialect with
      | .bash =>
        complain (title ++ ": filename argument required")
        complainLine (title ++ ": usage: " ++ title ++ " filename [arguments]")
        endWith 2
      | .plain => endWith 0
    | file :: rest =>
      let found := if file.contains '/' then some file
        else ((m.programPath? file).filter fun p => m.files.isFile (pathOf p)).orElse fun _ =>
          if m.isBash then some file else none
      match found with
      | none => failSpecial "." (String.ofList file ++ ": not found") 1
      | some path =>
        match m.files.read (pathOf path) with
        | .error e =>
          match m.dialect with
          | .bash =>
            if e == .isDirectory then fail (title ++ ": " ++ String.ofList file ++ ": is a directory") 1
            else fail (String.ofList file ++ ": " ++ reason e) 1
          | .plain => failSpecial "." (redirectReason .plain false file e) 1
        | .ok bytes =>
          let text := textOf bytes
          endWith 0
          modify fun m =>
            { m with
              source := path
              reading := m.reading + 1
              depth := m.depth + 1
              calling := ".: "
              arguments := if rest.isEmpty || !m.isBash then m.arguments else rest }
          script ⟨text, m.dialect, 1, ""⟩ fuel text
          modify fun after =>
            { after with
              source := m.source
              reading := m.reading
              depth := m.depth
              calling := m.calling
              line := m.line
              arguments := if rest.isEmpty || !m.isBash then after.arguments else m.arguments
              leaving := match after.leaving with
                | some .returning => none
                | l => l }

/-- Gives way to a program. -/
def giveWay : Nat → List (List Char) → Act Unit
  | 0, _ => pure ()
  | _, [] => endWith 0
  | fuel + 1, name :: args => do
    let m ← get
    let absolute := if name.head? == some '/' then name
      else m.directory ++ '/' :: (if ['.', '/'].isPrefixOf name then name.drop 2 else name)
    match m.programPath? name with
    | none =>
      complainAs "exec" (String.ofList name ++ ": not found")
      leave (.exit (.code 127))
    | some path =>
      match m.files.find (pathOf path) with
      | .ok entry =>
        if entry.isExecutable then
          modify fun m => { m with traps := m.traps.filter (·.2.isEmpty) }
          let ending ← program fuel entry name args
          leave (.exit ending)
        else
          match m.dialect with
          | .bash =>
            complain (String.ofList name ++
              (if entry.isDirectory then ": Is a directory" else ": Permission denied"))
            if !entry.isDirectory then
              complainAs "exec" (String.ofList name ++ ": cannot execute: Permission denied")
          | .plain => complainAs "exec" (String.ofList name ++ ": Permission denied")
          leave (.exit (.code 126))
      | .error e =>
        match m.dialect with
        | .bash => complain (String.ofList absolute ++ ": " ++ reason e)
        | .plain => complainAs "exec" (String.ofList name ++ ": not found")
        leave (.exit (.code 127))

/-- Runs a command given by its words. -/
def invoke : Nat → Bool → Bool → List (List Char) → List Assignment → Act Unit
  | 0, _, _, _, _ => pure ()
  | _, _, _, [], _ => pure ()
  | fuel + 1, isLast, functionsToo, name :: args, settings => do
    let m ← get
    match (if functionsToo then m.functions.find? (·.name == name) else none) with
    | some f => call fuel f args
    | none =>
      match String.ofList name with
      | "eval" =>
        let text := spaced args
        endWith 0
        modify fun m => { m with depth := m.depth + 1, calling := "eval: " }
        script ⟨text, m.dialect, m.line, "eval: "⟩ fuel text
        modify fun after => { after with depth := m.depth, calling := m.calling, line := m.line }
      | "command" =>
        match args with
        | [] => endWith 0
        | ['-', 'v'] :: names => tellNames (if m.isBash then names else names.take 1)
        | ['-', 'V'] :: names => describeNames "command" names
        | ['-', 'p'] :: rest => invoke fuel isLast false rest settings
        | ['-', '-'] :: rest => invoke fuel isLast false rest settings
        | rest => invoke fuel isLast false rest settings
      | "exec" => giveWay fuel (args.dropWhile (· == ['-', '-']))
      | known =>
        if known == "." then readIn fuel "." args
        else if known == "source" && m.isBash then readIn fuel "source" args
        else if known == "builtin" && m.isBash then
          match args with
          | [] => endWith 0
          | name :: rest =>
            if (builtinNames .bash).contains (String.ofList name) then
              invoke fuel isLast false (name :: rest) settings
            else failAs "builtin" (String.ofList name ++ ": not a shell builtin") 1
        else
          match builtin? m.dialect known args settings with
          | some act => act
          | none => execute fuel isLast name args

/-- Carries out assignments without a command; `shown` is what the trace of
    the plain shell shows together. -/
def assignAll : Nat → List (List Char) → List Setting → Act Unit
  | 0, _, _ => pure ()
  | _, shown, [] => do
    if !(← get).isBash && !shown.isEmpty then trace (spaced shown)
  | fuel + 1, shown, s :: rest => do
    let a ← expandSetting (runner fuel) s
    if ← goesOn then
      if (← get).isBash then trace a.trace
      if ← a.apply "" then assignAll fuel (shown ++ [a.plainTrace]) rest

/-- Runs a simple command. -/
def simple : Nat → Bool → List Setting → List Word → List Setting → List Redirect → Act Unit
  | 0, _, _, _, _, _ => pure ()
  | fuel + 1, isLast, settings, words, declared, rs => do
    let before ← get
    modify fun m => { m with channels := [] }
    let r := runner fuel
    let args ← expandWords r words
    let asked := words.any (·.any Part.isCapture)
    let mut isPermanent := false
    if ← goesOn then
      if args.isEmpty then
        match ← redirectAll r rs with
        | some why => if !why.isEmpty then fail why (if before.isBash then 1 else 2)
        | none =>
          if !asked then endWith 0
          assignAll fuel [] settings
      else
        let mut own : List Variable := []
        let mut ahead : List (List Char) := []
        for s in settings do
          if ← goesOn then
            let a ← expandSetting r s
            if ← goesOn then
              if before.isBash then trace a.trace
              ahead := ahead ++ [a.plainTrace]
              if ((before.find? a.name).map (·.readOnly)).getD false then
                refuseChange a.name
                if before.isBash then modify fun m => { m with leaving := none }
              else
                let value := match a.value with
                  | .text t =>
                    if a.adds then ((before.text? a.name).getD []) ++ t else t
                  | .elements _ => []
                let v := { Variable.ofText a.name value with exported := true }
                own := v :: own
                modify fun m => { m with frames := [v] :: m.frames }
        modify fun m => { m with frames := before.frames }
        let mut ready : List Assignment := []
        for s in declared do
          if ← goesOn then
            ready := ready ++ [← expandSetting r s]
        if ← goesOn then
          let name := String.ofList (args.headD [])
          let shown := args ++ ready.map fun a => match a.value with
            | .text t => a.name ++ (if a.adds then ['+', '='] else ['=']) ++ t
            | .elements _ => a.trace
          trace (if before.isBash then tracedWords shown else spaced (ahead ++ shown))
          if name == "export" || name == "readonly" then
            for a in ready do
              if before.isBash then trace a.trace
          isPermanent := name == "exec" && args.length == 1
          match ← redirectAll r rs with
          | some why =>
            modify fun m => { m with streams := before.streams }
            if !why.isEmpty then fail why (if before.isBash then 1 else 2)
            isPermanent := false
            if !before.isBash && specialBuiltins.contains name then leave (.exit (.code 2))
          | none =>
            let temporary := own
            if !temporary.isEmpty then
              modify fun m => { m with frames := temporary :: m.frames }
            let gives := isLast && rs.isEmpty
            invoke fuel gives true args ready
            if !temporary.isEmpty then
              modify fun m => { m with frames := m.frames.eraseIdx (m.frames.length - before.frames.length - 1) }
    let opened := (← get).channels
    if isPermanent then
      modify fun m => { m with channels := before.channels ++ opened }
    else
      modify fun m => { m with streams := before.streams, channels := before.channels }
      feed fuel opened
    match (← get).fallen with
    | some n =>
      modify fun m => { m with fallen := none }
      reportSignal n args
    | none => pure ()
    modify fun m =>
      { m with lastWord := if args.isEmpty then m.lastWord else (args.getLast?).getD [] }
    conclude fuel

/-- Runs the stages of a pipe, each reading from the one before, and tells how
    they end. -/
def stagesFrom : Nat → Option Nat → List Tree → Act (List Exit)
  | 0, _, _ => pure []
  | _, _, [] => pure []
  | fuel + 1, input, stage :: rest => do
    let output ← if rest.isEmpty then pure none else (do
      let n ← allocate (.pipe #[] 0)
      pure (some n))
    let ending ← inCopy fuel (do
      match input with
      | some n => bindStream 0 n
      | none => pure ()
      match output with
      | some n => bindStream 1 n
      | none => pure ()
      run fuel true stage)
    match ending with
    | .signal n => if rest.isEmpty || !(← get).isBash then reportSignal n []
    | .code _ => pure ()
    let more ← stagesFrom fuel output rest
    return ending :: more

/-- Runs a command. -/
def run : Nat → Bool → Tree → Act Unit
  | 0, _, _ => pure ()
  | fuel + 1, isLast, tree => do
    match tree with
    | .skip => endWith 0
    | .simple line settings words declared rs =>
      modify fun m => { m with line := line }
      simple fuel isLast settings words declared rs
    | .sequence a b =>
      run fuel false a
      if ← goesOn then run fuel isLast b
    | .both a b =>
      asCondition (run fuel false a)
      let ok := (← get).last == 0
      if (← goesOn) && ok then run fuel isLast b
    | .either a b =>
      asCondition (run fuel false a)
      let ok := (← get).last == 0
      if (← goesOn) && !ok then run fuel isLast b
    | .negated a =>
      asCondition (run fuel false a)
      if ← goesOn then modify fun m => m.ends (if m.last == 0 then 1 else 0)
    | .pipe stages =>
      let endings ← stagesFrom fuel none stages
      let codes := endings.map Exit.number
      let m ← get
      let failed := (codes.filter (· != 0)).getLast?
      let code := if m.has "pipefail" then failed.getD 0 else (codes.getLast?).getD 0
      endWith code
      checkFailure fuel
      modify fun m => { m with statuses := codes }
      deliver fuel
    | .background a =>
      let before ← get
      let process := before.nextProcess
      let ending ← inCopy fuel (do
        modify fun m => { m with job := process, jobs := [] }
        let n ← allocate .null
        bindStream 0 n
        run fuel true a)
      let finish := (← get).clock
      modify fun m =>
        { m with
          clock := before.clock
          jobs := ⟨process, m.jobs.length + 1, ending, finish⟩ :: m.jobs
          last := 0 }
      deliver fuel
    | .timed brief a =>
      let start := (← get).clock
      run fuel false a
      if ← goesOn then
        let _ ← write Emission.errors (bytesOf (timeReport brief ((← get).clock - start)))
    | .group a rs => withRedirects fuel rs (run fuel false a)
    | .subshell a rs =>
      withRedirects fuel rs (do
        let ending ← inCopy fuel (run fuel true a)
        endWith ending.number
        match ending with
        | .signal n =>
          if (← get).isBash then modify fun m => { m with fallen := some n } else reportSignal n []
        | .code _ => pure ())
      match (← get).fallen with
      | some n =>
        modify fun m => { m with fallen := none }
        reportSignal n []
      | none => pure ()
      conclude fuel
    | .forEach line name words body rs =>
      modify fun m => { m with line := line }
      withRedirects fuel rs (do
        let values ← match words with
          | some ws => expandWords (runner fuel) ws
          | none => pure (← get).arguments
        if !isName name then fail ("`" ++ String.ofList name ++ "': not a valid identifier") 1
        else if ← goesOn then
          endWith 0
          inLoop (each fuel name values values body))
    | .count line start condition step body rs =>
      modify fun m => { m with line := line }
      withRedirects fuel rs (do
        let r := runner fuel
        let first ← expandSource r start
        trace ("(( ".toList ++ first ++ " ))".toList)
        match ← calculate "((: " first with
        | some _ =>
          endWith 0
          inLoop (counting fuel condition step body)
        | none => endWith 1)
    | .branch condition yes no rs =>
      withRedirects fuel rs (do
        asCondition (run fuel false condition)
        let ok := (← get).last == 0
        if ← goesOn then run fuel false (if ok then yes else no))
    | .loop whileTrue condition body rs =>
      withRedirects fuel rs (inLoop (repeated fuel whileTrue 0 condition body))
    | .select line w arms rs =>
      modify fun m => { m with line := line }
      withRedirects fuel rs (do
        let s ← expandText (runner fuel) w
        if ← goesOn then
          if (← get).isBash then trace ("case ".toList ++ traced s ++ " in".toList)
          endWith 0
          chosen fuel s false arms)
    | .holds line condition rs =>
      modify fun m => { m with line := line }
      withRedirects fuel rs (do
        let answer ← holds (runner fuel) false condition
        if ← goesOn then
          endWith (match answer with
            | some true => 0
            | some false => 1
            | none => 2))
      conclude fuel
    | .calculate line source rs =>
      modify fun m => { m with line := line }
      withRedirects fuel rs (do
        let text ← expandSource (runner fuel) source
        if ← goesOn then
          trace ("(( ".toList ++ text ++ " ))".toList)
          match ← calculate "((: " text with
          | some n => endWith (if n == 0 then 1 else 0)
          | none => endWith 1)
      conclude fuel
    | .define name body =>
      modify fun m =>
        let source := if m.isInline && m.reading == 0 then "environment".toList else m.source
        { m with
          functions := ⟨name, body, source⟩ :: m.functions.filter (·.name != name)
          last := 0 }

/-- Runs the body of a loop for each of some values. -/
def each : Nat → List Char → List (List Char) → List (List Char) → Tree → Act Unit
  | 0, _, _, _, _ => pure ()
  | _, _, _, [], _ => pure ()
  | fuel + 1, name, all, value :: rest, body => do
    if (← get).isBash then
      trace ("for ".toList ++ name ++ " in ".toList ++ tracedWords all)
    let m ← get
    if ((m.find? name).map (·.readOnly)).getD false then
      refuseChange name
      if m.isBash then modify fun m => { m with leaving := none }
      endWith 1
    else
      let _ ← assignText "" name none false value
      run fuel false body
      if ← nextRound then each fuel name all rest body

/-- Runs the body of a counting loop. -/
def counting : Nat → List Char → List Char → Tree → Act Unit
  | 0, _, _, _ => pure ()
  | fuel + 1, condition, step, body => do
    let r := runner fuel
    let part (source : List Char) (standard : Int) : Act (Option Int) := do
      let text ← expandSource r source
      if text.all Cursor.isBlank then return some standard
      else
        trace ("(( ".toList ++ text ++ " ))".toList)
        calculate "((: " text
    match ← part condition 1 with
    | none => endWith 1
    | some n =>
      if n != 0 then
        run fuel false body
        if ← nextRound then
          match ← part step 1 with
          | none => endWith 1
          | some _ => counting fuel condition step body

/-- Runs the body of a loop as long as its condition says; `last` is how the
    body ended. -/
def repeated : Nat → Bool → Nat → Tree → Tree → Act Unit
  | 0, _, _, _, _ => pure ()
  | fuel + 1, whileTrue, last, condition, body => do
    asCondition (run fuel false condition)
    let ok := (← get).last == 0
    if ← goesOn then
      if ok == whileTrue then
        run fuel false body
        let last := (← get).last
        if ← nextRound then repeated fuel whileTrue last condition body
      else endWith last
    else
      if ← nextRound then repeated fuel whileTrue last condition body

/-- Runs the arms that a text chooses; `falls` tells that the next one is run
    whatever its patterns. -/
def chosen : Nat → List Char → Bool → List (List Word × Tree × ArmEnd) → Act Unit
  | 0, _, _, _ => pure ()
  | _, _, _, [] => pure ()
  | fuel + 1, s, falls, (patterns, body, ending) :: rest => do
    let m ← get
    let fold := fun (c : Char) => if m.allows "nocasematch" then c.toLower else c
    let mut isChosen := falls
    for p in patterns do
      if !isChosen then
        let marks ← expandMarks (runner fuel) p
        isChosen := isMatch (atomsOf (m.allows "extglob") (marks.map fun (c, q) => (fold c, q)))
          (s.map fold)
    if isChosen then
      run fuel false body
      if ← goesOn then
        match ending with
        | .done => pure ()
        | .fallThrough => chosen fuel s true rest
        | .goOn => chosen fuel s false rest
    else chosen fuel s false rest

end

/-- How many nested steps a script may take. -/
def patience : Nat := 20000

/-- What was written by when, in order. -/
def Machine.log (m : Machine) : List Emission :=
  (m.records.toList.mergeSort fun a b => a.time ≤ b.time).map (·.emission)

/-- What a program writes and how it ends, when it is run by path. -/
def runProgram (files : Files) (entry : Entry) (name : List Char) (args : List (List Char)) :
    List Emission × Exit × Files :=
  let start := Machine.first files (inward name)
  let (ending, done) := (program patience entry (inward name) (args.map inward)).run start
  (done.log, ending, done.files)

end CompilerRemarks.Shell
