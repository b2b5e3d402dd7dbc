/-
  CompilerRemarks.Shell.Builtin.Signal

  Builtins that send signals, catch them and wait for processes.
-/
import CompilerRemarks.Shell.Builtin.Basic

namespace CompilerRemarks.Shell

/-! ## Names -/

/-- The number of a signal as a shell reads it. -/
def signalOf? (d : Dialect) (s : List Char) : Option Nat :=
  let named := s.map Char.toUpper
  match d with
  | .bash => Exit.signalNumber? (if "SIG".toList.isPrefixOf named then s.drop 3 else s)
  | .plain => Exit.signalNumber? s

/-- The name of a signal. -/
def signalName (n : Nat) : String :=
  ((Exit.signal? n).map (·.1)).getD (Text.decimal n)

/-- What a trap is set for: the end of the shell, a failure or a signal. -/
def trapName? (d : Dialect) (s : List Char) : Option String :=
  let named := String.ofList (s.map Char.toUpper)
  if named == "EXIT" || named == "0" then some "EXIT"
  else if d == .bash && (named == "ERR" || named == "DEBUG" || named == "RETURN") then some named
  else (signalOf? d s).map signalName

/-- Signals that do nothing to a process that does not ask for them. -/
def isHarmless (n : Nat) : Bool :=
  n == 0 || [17, 18, 19, 20, 21, 22, 23, 28].contains n

/-! ## Sending -/

/-- Ends a job by a signal, if it is still running. -/
def endJob (j : Job) (n : Nat) : Act Unit := do
  let m ← get
  if j.finish > m.clock && !isHarmless n then
    modify fun m =>
      { m with
        jobs := m.jobs.map fun k =>
          if k.process == j.process then { k with ending := .signal n, finish := m.clock } else k
        records := m.records.filter fun r => !(r.job == j.process && r.time > m.clock) }

/-- Sends a signal to a process; tells whether there is one. -/
def sendSignal (process n : Nat) : Act Bool := do
  let m ← get
  match m.jobs.find? (·.process == process) with
  | some j =>
    endJob j n
    return true
  | none =>
    if process == m.process || process == m.mainProcess || process == m.parent then
      if n != 0 then
        modify fun m => { m with signals := m.signals ++ [⟨process, n, m.clock⟩] }
      return true
    else return false

/-- The lines of the list of signals. -/
def signalLines : List Char :=
  let cell (n : Nat) (name : String) : List Char :=
    let digits := Nat.toDigits 10 n
    List.replicate (2 - digits.length) ' ' ++ digits ++ (") SIG" ++ name).toList
  let cells := (Exit.signals.zipIdx 1).map fun ((name, _), n) => cell n name
  (cells.zipIdx 1).flatMap fun (s, k) =>
    s ++ (if k % 5 == 0 || k == cells.length then ['\n'] else ['\t'])

/-- Tells the names of signals by number and the numbers by name. -/
def listSignals (args : List (List Char)) : Act Unit := do
  let m ← get
  endWith 0
  match args, m.dialect with
  | [], .bash => emit "kill: " (bytesOf signalLines)
  | [], .plain =>
    emit "kill: " (bytesOf ("0\n".toList ++ Exit.signals.flatMap fun (name, _) => (name ++ "\n").toList))
  | args, d =>
    for s in (if d == .bash then args else args.take 1) do
      let answer : Option String := match Text.digits? 10 s with
        | some n =>
          let n := if n > 128 then n - 128 else n
          if n == 0 then some "EXIT" else (Exit.signal? n).map (·.1)
        | none => (signalOf? m.dialect s).map Text.decimal
      match answer with
      | some t => emit "kill: " (bytesOf (t ++ "\n").toList)
      | none => failAs "kill" (String.ofList s ++ ": invalid signal specification") 1

/-- What the arguments of `kill` ask for. -/
inductive KillRequest where
  | list (args : List (List Char))
  | send (n : Nat) (targets : List (List Char))
  | badSignal (s : List Char)
  | badOption (s : List Char)
  | lacksSignal (option : List Char)
  | usage

/-- Reads the arguments of `kill`. -/
def killRequest (d : Dialect) (args : List (List Char)) : KillRequest :=
  let signal (name : List Char) (rest : List (List Char)) : KillRequest :=
    match signalOf? d name with
    | some n => if rest.isEmpty then .usage else .send n rest
    | none => .badSignal name
  let afterMark (rest : List (List Char)) : List (List Char) :=
    if rest.head? == some ['-', '-'] then rest.drop 1 else rest
  match args with
  | [] => .usage
  | ['-', 'l'] :: rest => .list rest
  | ['-', 'L'] :: rest => if d == .bash then .list rest else .badOption ['-', 'L']
  | [['-', 's']] => .lacksSignal ['-', 's']
  | ['-', 's'] :: name :: rest => signal name (afterMark rest)
  | ['-', 'n'] :: name :: rest => if d == .bash then signal name (afterMark rest) else .badOption ['-', 'n']
  | ['-', '-'] :: rest => if rest.isEmpty then .usage else .send 15 rest
  | ('-' :: c :: name) :: rest =>
    match d with
    | .bash =>
      let spec := if c == 's' && !name.isEmpty && (signalOf? d (c :: name)).isNone then name
        else c :: name
      signal spec (afterMark rest)
    | .plain =>
      match signalOf? d (c :: name) with
      | some n => if rest.isEmpty then .usage else .send n (afterMark rest)
      | none => .badOption ['-', c]
  | rest => .send 15 rest

/-- Sends a signal to processes. -/
def runKill (args : List (List Char)) : Act Unit := do
  let m ← get
  match killRequest m.dialect args with
  | .list rest => listSignals rest
  | .usage =>
    match m.dialect with
    | .bash =>
      complainLine
        "kill: usage: kill [-s sigspec | -n signum | -sigspec] pid | jobspec ... or kill -l [sigspec]"
      endWith 2
    | .plain =>
      failAs "kill" ("Usage: kill [-s sigspec | -signum | -sigspec] [pid | job]... or\n" ++
        "kill -l [exitstatus]") 2
  | .lacksSignal option =>
    failAs "kill" (String.ofList option ++ ": option requires an argument") 1
  | .badSignal s =>
    match m.dialect with
    | .bash => failAs "kill" (String.ofList s ++ ": invalid signal specification") 1
    | .plain => failAs "kill" ("invalid signal number or name: " ++ String.ofList s) 2
  | .badOption s => failAs "kill" ("Illegal option " ++ String.ofList s) 2
  | .send n targets =>
    endWith 0
    for target in targets do
      match target with
      | '%' :: spec =>
        let number := (Text.digits? 10 spec).getD 1
        match m.jobs.find? (·.number == number) with
        | some j => endJob j n
        | none =>
          match m.dialect with
          | .bash => failAs "kill" (String.ofList target ++ ": no such job") 1
          | .plain => failAs "kill" ("No such job: " ++ String.ofList target) 2
      | _ =>
        match Text.digits? 10 target with
        | some process =>
          if !(← sendSignal process n) then
            match m.dialect with
            | .bash => failAs "kill" ("(" ++ String.ofList target ++ ") - No such process") 1
            | .plain => failAs "kill" "No such process\n" 1
        | none =>
          match m.dialect with
          | .bash =>
            failAs "kill" (String.ofList target ++ ": arguments must be process or job IDs") 1
          | .plain => failAs "kill" ("Illegal number: " ++ String.ofList target) 2

/-! ## Catching -/

/-- The place of a trap in a list of them. -/
def trapRank (name : String) : Nat :=
  match name with
  | "EXIT" => 0
  | "DEBUG" => 65
  | "ERR" => 66
  | "RETURN" => 67
  | name => (Exit.signalByName? name.toList).getD 68

/-- Prints traps as commands that set them. -/
def showTraps (only : Option (List String)) : Act Unit := do
  let m ← get
  let chosen := m.traps.filter fun (name, _) => match only with
    | some names => names.contains name
    | none => true
  let sorted := chosen.mergeSort fun a b => trapRank a.1 ≤ trapRank b.1
  let shown (name : String) : String :=
    if m.isBash && (Exit.signalByName? name.toList).isSome then "SIG" ++ name else name
  emit "trap: " (bytesOf (sorted.flatMap fun (name, text) =>
    "trap -- ".toList ++ singleQuoted text ++ (" " ++ shown name ++ "\n").toList))

/-- Sets or takes away the traps of some names. -/
def setTraps (text : Option (List Char)) (names : List (List Char)) : Act Unit := do
  for s in names do
    let m ← get
    match trapName? m.dialect s with
    | some name =>
      let others := m.traps.filter (·.1 != name)
      modify fun m =>
        { m with traps := match text with
          | some t => (name, t) :: others
          | none => others }
    | none =>
      match m.dialect with
      | .bash => failAs "trap" (String.ofList s ++ ": invalid signal specification") 1
      | .plain =>
        complainLine ("trap: " ++ String.ofList s ++ ": bad trap")
        endWith 1

/-- Sets what is run when a signal comes. -/
def runTrap (args : List (List Char)) : Act Unit := do
  let m ← get
  endWith 0
  let args := if args.head? == some ['-', '-'] then args.drop 1 else args
  match args with
  | [] => showTraps none
  | ['-', 'p'] :: names =>
    if m.isBash then
      showTraps (if names.isEmpty then none else some (names.filterMap (trapName? m.dialect)))
    else failAs "trap" "Illegal option -p" 2
  | ['-', 'l'] :: _ =>
    if m.isBash then emit "trap: " (bytesOf signalLines) else failAs "trap" "Illegal option -l" 2
  | ['-'] :: names => setTraps none names
  | [s] =>
    if (trapName? m.dialect s).isSome then setTraps none [s]
    else if m.isBash then
      complainLine "trap: usage: trap [-lp] [[arg] signal_spec ...]"
      endWith 2
    else endWith 0
  | text :: names =>
    if (Text.digits? 10 text).isSome && (trapName? m.dialect text).isSome then setTraps none args
    else setTraps (some text) names

/-! ## Waiting -/

/-- Lets the time pass up to a moment, or to an earlier signal that is
    caught; tells which. -/
def waitUntil (time : Nat) : Act (Option Nat) := do
  let m ← get
  let caught := m.signals.find? fun s =>
    s.process == m.process && s.time > m.clock && s.time ≤ time &&
      ((m.traps.lookup (signalName s.number)).map (!·.isEmpty)).getD false
  match caught with
  | some s =>
    modify fun m => { m with clock := s.time }
    return some s.number
  | none =>
    modify fun m => { m with clock := max m.clock time }
    return none

/-- Waits for a job. The plain shell says so if a signal ended it. -/
def waitFor (j : Job) : Act Unit := do
  match ← waitUntil j.finish with
  | some n => endWith (128 + n)
  | none =>
    endWith j.ending.number
    match j.ending with
    | .signal n =>
      let what := ((Exit.signal? n).map (·.2)).getD ""
      if !(← get).isBash && !what.isEmpty then complainLine what
    | .code _ => pure ()

/-- Waits for jobs. -/
def runWait (args : List (List Char)) : Act Unit := do
  let m ← get
  endWith 0
  match args.filter fun a => a != ['-', 'f'] && a != ['-', '-'] with
  | [] =>
    let latest := m.jobs.foldl (fun t j => max t j.finish) m.clock
    match ← waitUntil latest with
    | some n => endWith (128 + n)
    | none => pure ()
  | ['-', 'n'] :: _ =>
    let running := m.jobs.filter fun j => j.finish ≥ m.clock
    let first := running.foldl (fun (best : Option Job) j => match best with
      | some b => if j.finish < b.finish then some j else best
      | none => some j) none
    match first with
    | some j => waitFor j
    | none => endWith 127
  | names =>
    for s in names do
      match s with
      | '%' :: spec =>
        match m.jobs.find? fun j => some j.number == Text.digits? 10 spec with
        | some j => waitFor j
        | none =>
          match m.dialect with
          | .bash => failAs "wait" (String.ofList s ++ ": no such job") 127
          | .plain => failAs "wait" ("No such job: " ++ String.ofList s) 2
      | _ =>
        match Text.digits? 10 s with
        | some process =>
          match m.jobs.find? (·.process == process) with
          | some j => waitFor j
          | none =>
            if m.isBash then
              failAs "wait" ("pid " ++ String.ofList s ++ " is not a child of this shell") 127
            else endWith 127
        | none =>
          match m.dialect with
          | .bash => failAs "wait" ("`" ++ String.ofList s ++ "': not a pid or valid job spec") 1
          | .plain => failAs "wait" ("Illegal number: " ++ String.ofList s) 2

end CompilerRemarks.Shell
