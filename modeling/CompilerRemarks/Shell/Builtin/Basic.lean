/-
  CompilerRemarks.Shell.Builtin.Basic

  Builtins that change how a script goes on, and those that look at where it
  stands.
-/
import CompilerRemarks.Shell.Expand
import CompilerRemarks.Shell.Program

namespace CompilerRemarks.Shell

/-! ## Failures -/

/-- Complains in the name of a builtin. In the plain shell builtins name
    themselves in place of the one that runs a script. -/
def complainAs (name : String) (what : String) : Act Unit := do
  let m ← get
  match m.dialect with
  | .bash => complain (name ++ ": " ++ what)
  | .plain => complainLine ({ m with calling := "" }.label ++ name ++ ": " ++ what)

/-- Ends a builtin with a complaint. -/
def failAs (name : String) (what : String) (n : Nat) : Act Unit := do
  complainAs name what
  endWith n

/-- Ends a builtin whose failure ends the plain shell. -/
def failSpecial (name : String) (what : String) (n : Nat) : Act Unit := do
  complainAs name what
  endWith n
  if !(← get).isBash then leave (.exit (.code 2))

/-- Complains about an option and shows how a builtin is used. -/
def failUsage (name usage : String) (option : List Char) : Act Unit := do
  match (← get).dialect with
  | .bash =>
    complainAs name (String.ofList option ++ ": invalid option")
    complainLine (name ++ ": usage: " ++ usage)
    endWith 2
  | .plain => failAs name ("Illegal option " ++ String.ofList (option.take 2)) 2

/-! ## Going on elsewhere -/

/-- The number of an exit, as far as a process can end with it. -/
def exitNumber (n : Int) : Nat :=
  (n % 256).toNat

/-- The number that a builtin was given. -/
inductive Given where
  | nothing
  | number (n : Int)
  | noNumber (s : List Char)
  | several

/-- What the arguments of a builtin with one number say. -/
def givenNumber (d : Dialect) (args : List (List Char)) : Given :=
  let args := if args.head? == some ['-', '-'] then args.drop 1 else args
  match args with
  | [] => .nothing
  | s :: rest =>
    match d with
    | .bash =>
      match testInteger? s with
      | none => .noNumber s
      | some n => if rest.isEmpty then .number n else .several
    | .plain =>
      match Text.digits? 10 s with
      | some n => .number (Int.ofNat n)
      | none => .noNumber s

/-- Complains about an argument that is no number. -/
def failNumber (name : String) (s : List Char) : Act Unit := do
  match (← get).dialect with
  | .bash => complainAs name (String.ofList s ++ ": numeric argument required")
  | .plain => complainAs name ("Illegal number: " ++ String.ofList s)

/-- Gives up because of too many arguments. -/
def failSeveral (name : String) : Act Unit := do
  complainAs name "too many arguments"
  abandon

/-- Ends the shell. -/
def runExit (args : List (List Char)) : Act Unit := do
  let m ← get
  match givenNumber m.dialect args with
  | .nothing => leave (.exit (.code m.last))
  | .number n => leave (.exit (.code (exitNumber n)))
  | .noNumber s =>
    failNumber "exit" s
    leave (.exit (.code 2))
  | .several => failSeveral "exit"

/-- Ends a function or a file that is being read in. -/
def runReturn (args : List (List Char)) : Act Unit := do
  let m ← get
  if m.calls.isEmpty && m.reading == 0 && m.isBash then
    failAs "return" "can only `return' from a function or sourced script" 2
  else
    match givenNumber m.dialect args with
    | .nothing => leave .returning
    | .number n =>
      endWith (if m.isBash then exitNumber n else n.toNat)
      leave .returning
    | .noNumber s =>
      failNumber "return" s
      endWith 2
      leave (if m.isBash then .returning else .exit (.code 2))
    | .several => failSeveral "return"

/-- Leaves loops, or goes on with their next round. -/
def runBreak (name : String) (make : Nat → Leave) (args : List (List Char)) : Act Unit := do
  let m ← get
  endWith 0
  match givenNumber m.dialect args with
  | .noNumber s =>
    failNumber name s
    leave (.exit (.code (if m.isBash then 128 else 2)))
  | .several => failSeveral name
  | given =>
    let n : Int := match given with
      | .number n => n
      | _ => 1
    if m.loops == 0 then
      if m.isBash then complainAs name "only meaningful in a `for', `while', or `until' loop"
    else if n ≤ 0 then
      match m.dialect with
      | .bash =>
        failAs name (String.ofList (integerText n) ++ ": loop count out of range") 1
        leave (.breaking m.loops)
      | .plain =>
        complainAs name ("Illegal number: " ++ String.ofList (integerText n))
        leave (.exit (.code 2))
    else leave (make (min n.toNat m.loops))

/-- Drops arguments of the script. -/
def runShift (args : List (List Char)) : Act Unit := do
  let m ← get
  match givenNumber m.dialect args with
  | .noNumber s =>
    failNumber "shift" s
    endWith 1
    if !m.isBash then leave (.exit (.code 2))
  | .several => failSeveral "shift"
  | given =>
    let n : Int := match given with
      | .number n => n
      | _ => 1
    if n < 0 then failAs "shift" (String.ofList (integerText n) ++ ": shift count out of range") 1
    else if n.toNat > m.arguments.length then
      if m.isBash then endWith 1 else failSpecial "shift" "can't shift that many" 2
    else
      modify fun m => { m with arguments := m.arguments.drop n.toNat, last := 0 }

/-! ## Directories -/

/-- Goes to a directory. -/
def enterDirectory (name : List Char) (tells : Bool) : Act Unit := do
  let m ← get
  let p := pathOf name
  let refuse (e : FileError) : Act Unit := do
    match m.dialect with
    | .bash => failAs "cd" (String.ofList name ++ ": " ++ reason e) 1
    | .plain => failAs "cd" ("can't cd to " ++ String.ofList name) 2
  match m.files.locate p with
  | .error e => refuse e
  | .ok place =>
    if !m.files.isDirectory p then refuse .notDirectory
    else
      let before := m.directory
      modify fun m => { m with files := { m.files with here := place }, last := 0 }
      let after := (← get).directory
      modify fun m => (m.setText "OLDPWD".toList before).setText "PWD".toList after
      if tells then emit "cd: " (bytesOf (after ++ ['\n']))

/-- Changes the working directory. -/
def runDirectory (args : List (List Char)) : Act Unit := do
  let m ← get
  let args := args.dropWhile fun a => a == ['-', 'L'] || a == ['-', 'P'] || a == ['-', '-']
  match args with
  | [] =>
    match m.text? "HOME".toList with
    | some home => enterDirectory home false
    | none => if m.isBash then failAs "cd" "HOME not set" 1 else endWith 0
  | [['-']] =>
    match m.text? "OLDPWD".toList with
    | some before => enterDirectory before true
    | none => if m.isBash then failAs "cd" "OLDPWD not set" 1 else endWith 0
  | [[]] => endWith 0
  | name :: rest =>
    if !rest.isEmpty && m.isBash then failAs "cd" "too many arguments" 1
    else enterDirectory name false

/-- Prints the working directory. -/
def runWhere (args : List (List Char)) : Act Unit := do
  let m ← get
  let isOption := fun (a : List Char) => a.length > 1 && a.head? == some '-'
  match (args.takeWhile isOption).find? fun a => a != ['-', 'L'] && a != ['-', 'P'] && a != ['-', '-'] with
  | some a => failUsage "pwd" "pwd [-LP]" a
  | none =>
    endWith 0
    emit "pwd: " (bytesOf (m.directory ++ ['\n']))

/-! ## Options -/

/-- Options of a shell that have only a name. -/
def longOptions : List String :=
  ["pipefail", "posix", "emacs", "vi", "history", "ignoreeof", "interactive-comments", "nolog"]

/-- Turns an option on or off. -/
def switch (on : Bool) (name : String) : Act Unit :=
  modify fun m =>
    let others := m.options.filter (· != name)
    { m with options := if on then name :: others else others }

/-- The options that `set -o` lists, in order. -/
def listedOptions : List String :=
  ["allexport", "braceexpand", "emacs", "errexit", "errtrace", "functrace", "hashall", "histexpand",
    "history", "ignoreeof", "interactive-comments", "keyword", "monitor", "noclobber", "noexec",
    "noglob", "nolog", "notify", "nounset", "onecmd", "physical", "pipefail", "posix", "privileged",
    "verbose", "vi", "xtrace"]

/-- Lists the options. -/
def listOptions (asCommands : Bool) : Act Unit := do
  let m ← get
  let line (name : String) : List Char :=
    if asCommands then ("set " ++ (if m.has name then "-o " else "+o ") ++ name ++ "\n").toList
    else
      name.toList ++ List.replicate (15 - name.length) ' ' ++
        ("\t" ++ (if m.has name then "on" else "off") ++ "\n").toList
  emit "set: " (bytesOf (listedOptions.flatMap line))

/-- Sets options by letter and name, and the arguments of the script. -/
def setOptions : Nat → List (List Char) → Act Unit
  | 0, _ => pure ()
  | _, [] => pure ()
  | fuel + 1, word :: rest => do
    let m ← get
    let arguments (args : List (List Char)) : Act Unit :=
      modify fun m =>
        let m := if m.isBash then m else { m.setText "OPTIND".toList ['1'] with optionPlace := 0 }
        { m with arguments := args }
    match word with
    | ['-', '-'] => arguments rest
    | ['-'] =>
      switch false "xtrace"
      switch false "verbose"
      if !rest.isEmpty then arguments rest
    | sign :: c :: letters =>
      if sign != '-' && sign != '+' then arguments (word :: rest)
      else
        let mut after := rest
        for k in c :: letters do
          if ← goesOn then
            if k == 'o' then
              match after with
              | [] => listOptions (sign == '+')
              | name :: more =>
                after := more
                let name := String.ofList name
                if listedOptions.contains name || longOptions.contains name then
                  switch (sign == '-') name
                else
                  match m.dialect with
                  | .bash => failAs "set" (name ++ ": invalid option name") 2
                  | .plain => failSpecial "set" ("Illegal option -o " ++ name) 2
            else
              match Machine.optionNames.lookup k with
              | some name => switch (sign == '-') name
              | none =>
                match m.dialect with
                | .bash =>
                  failUsage "set" "set [-abefhkmnptuvxBCEHPT] [-o option-name] [--] [-] [arg ...]"
                    [sign, k]
                | .plain => failSpecial "set" ("Illegal option " ++ String.ofList [sign, k]) 2
        if (← get).last == 0 && (← goesOn) then setOptions fuel after
    | _ => arguments (word :: rest)

/-- Sets options and arguments. -/
def runSet (args : List (List Char)) : Act Unit := do
  endWith 0
  setOptions (args.length + 1) args

/-- The optional behaviours that can be switched. -/
def knownExtras : List String :=
  ["autocd", "assoc_expand_once", "cdable_vars", "cdspell", "checkhash", "checkjobs", "checkwinsize",
    "cmdhist", "compat31", "compat32", "compat40", "compat41", "compat42", "compat43", "compat44",
    "complete_fullquote", "direxpand", "dirspell", "dotglob", "execfail", "expand_aliases",
    "extdebug", "extglob", "extquote", "failglob", "force_fignore", "globasciiranges", "globskipdots",
    "globstar", "gnu_errfmt", "histappend", "histreedit", "histverify", "hostcomplete", "huponexit",
    "inherit_errexit", "interactive_comments", "lastpipe", "lithist", "localvar_inherit",
    "localvar_unset", "login_shell", "mailwarn", "no_empty_cmd_completion", "nocaseglob",
    "nocasematch", "noexpand_translation", "nullglob", "patsub_replacement", "progcomp",
    "progcomp_alias", "promptvars", "restricted_shell", "shift_verbose", "sourcepath",
    "varredir_close", "xpg_echo"]

/-- The optional behaviours that are on from the start. -/
def standardExtras : List String :=
  ["checkwinsize", "cmdhist", "complete_fullquote", "extquote", "force_fignore", "globasciiranges",
    "globskipdots", "hostcomplete", "interactive_comments", "patsub_replacement", "progcomp",
    "promptvars", "sourcepath"]

/-- Switches optional behaviours, or tells whether they are on. -/
def runExtras (args : List (List Char)) : Act Unit := do
  let (flags, names) := args.partition fun a => a.head? == some '-'
  let letters := flags.flatMap (·.drop 1)
  let names := names.map fun s => String.ofList s
  let known := if letters.contains 'o' then listedOptions else knownExtras
  endWith 0
  match names.find? (!known.contains ·) with
  | some name => failAs "shopt" (name ++ ": invalid shell option name") 1
  | none =>
    let m ← get
    let isOn (name : String) : Bool :=
      if letters.contains 'o' then m.has name else m.allows name
    if letters.contains 's' || letters.contains 'u' then
      let on := letters.contains 's'
      for name in names do
        if letters.contains 'o' then switch on name
        else modify fun m =>
          let others := m.extras.filter (· != name)
          { m with extras := if on then name :: others else others }
    else
      if !letters.contains 'q' then
        for name in names do
          emit "shopt: " (bytesOf (name.toList ++ List.replicate (15 - name.length) ' ' ++
            ("\t" ++ (if isOn name then "on" else "off") ++ "\n").toList))
      if names.any (!isOn ·) then endWith 1

/-! ## Letters of arguments -/

/-- Reads the next option of the arguments. -/
def runOptionReader (args : List (List Char)) : Act Unit := do
  let m ← get
  match args with
  | letters :: name :: given =>
    let words := if given.isEmpty then m.arguments else given
    let isSilent := letters.head? == some ':'
    let index := ((m.text? "OPTIND".toList).bind (Text.digits? 10)).getD 1
    let word := (words[index - 1]?).getD []
    let place := if m.optionPlace == 0 then 1 else m.optionPlace
    let answer (value : List Char) (index place : Nat) (optarg : Option (List Char)) (code : Nat) :
        Act Unit := do
      modify fun m =>
        let m := m.setText name value
        let m := m.setText "OPTIND".toList (Nat.toDigits 10 index)
        let m := match optarg with
          | some s => m.setText "OPTARG".toList s
          | none => m.erase "OPTARG".toList
        { m with optionPlace := place, last := code }
    let isOption : Bool := word.length > 1 && word.head? == some '-'
    if place == 1 && word == ['-', '-'] then answer ['?'] (index + 1) 0 none 1
    else if !isOption || place ≥ word.length then answer ['?'] index 0 none 1
    else
      let c := word.getD place '?'
      let isLast := place + 1 ≥ word.length
      let (nextIndex, nextPlace) := if isLast then (index + 1, 0) else (index, place + 1)
      let tail := (letters.dropWhile (· ≠ c)).drop 1
      let isKnown := letters.contains c && c != ':'
      let complainOption (bash plain : String) : Act Unit :=
        match m.dialect with
        | .bash => complainLine (String.ofList m.name ++ ": " ++ bash)
        | .plain => complainLine plain
      if !isKnown then
        if isSilent then answer ['?'] nextIndex nextPlace (some [c]) 0
        else
          complainOption ("illegal option -- " ++ c.toString) ("Illegal option -" ++ c.toString)
          answer ['?'] nextIndex nextPlace none 0
      else if tail.head? != some ':' then answer [c] nextIndex nextPlace none 0
      else if !isLast then answer [c] (index + 1) 0 (some (word.drop (place + 1))) 0
      else
        match words[index]? with
        | some value => answer [c] (index + 2) 0 (some value) 0
        | none =>
          if isSilent then answer [':'] (index + 1) 0 (some [c]) 0
          else
            complainOption ("option requires an argument -- " ++ c.toString)
              ("No arg for -" ++ c.toString ++ " option")
            answer ['?'] (index + 1) 0 none 0
  | _ =>
    match m.dialect with
    | .bash =>
      complainLine "getopts: usage: getopts optstring name [arg ...]"
      endWith 2
    | .plain => failAs "getopts" "Usage: getopts optstring var [arg...]" 2

end CompilerRemarks.Shell
