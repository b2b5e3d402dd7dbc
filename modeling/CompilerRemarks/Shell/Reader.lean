/-
  CompilerRemarks.Shell.Reader

  Reading commands. A script is read one line of commands at a time, since a
  shell runs what it has read before it reads on.
-/
import CompilerRemarks.Shell.Document
import CompilerRemarks.Text.Numeral

namespace CompilerRemarks.Shell

/-! ## Line ends -/

/-- Drops blanks, comments and line ends. -/
def skipLines : Nat → List Char → List Char
  | 0, s => s
  | fuel + 1, s =>
    match skipSpace s with
    | '\n' :: rest => skipLines fuel rest
    | rest => rest

/-- Drops blanks, comments and line ends. -/
def skipAll (s : List Char) : List Char :=
  skipLines (s.length + 1) s

/-- Where a script's text stands in its lines. -/
structure Source where
  text : List Char
  dialect : Dialect
  /-- The number of its first line. -/
  firstLine : Nat
  /-- Where it comes from, as a complaint about it says. -/
  origin : String

/-- The number of the line at which the rest of a script starts. -/
def Source.lineAt (src : Source) (rest : List Char) : Nat :=
  src.firstLine + (src.text.take (src.text.length - rest.length)).count '\n'

/-! ## Tokens -/

/-- The operators, longer ones first. -/
def operators : List (List Char) :=
  [";;&", "<<-", "<<<", "&&", "||", ";;", ";&", "<<", ">>", "<&", ">&", "<>", ">|", "|&", "&", "|",
    ";", "<", ">", "(", ")"].map String.toList

/-- The word at the start of a text as it is written. -/
def rawWord : Nat → List Char → List Char
  | 0, _ => []
  | _, [] => []
  | fuel + 1, c :: rest =>
    let nested (nest : Nest) (mark tail : List Char) : List Char :=
      match upTo? nest tail with
      | some (body, after) => mark ++ body ++ nest.mark :: rawWord fuel after
      | none => mark ++ tail
    match c, rest with
    | '\\', e :: tail => c :: e :: rawWord fuel tail
    | '\'', _ => nested .single [c] rest
    | '"', _ => nested .double [c] rest
    | '\x60', _ => nested .back [c] rest
    | '$', '(' :: tail => nested .round ['$', '('] tail
    | '$', '\x7b' :: tail => nested (.curly true) ['$', '\x7b'] tail
    | _, _ => if isMeta c then [] else c :: rawWord fuel rest

/-- The token at the start of a text, as an error shows it. -/
def tokenAt (s : List Char) : List Char :=
  match operators.find? (·.isPrefixOf s) with
  | some op => op
  | none => rawWord (s.length + 1) s

/-- The fault of a text that cannot go on as it does, where one thing could
    stand there. -/
def unexpectedFor {α : Type} (wanted : String) (s : List Char) : Except Fault α :=
  match s with
  | [] => .error (.ended wanted)
  | '\n' :: rest => .error (.unexpected "newline".toList ('\n' :: rest) wanted)
  | _ =>
    let token := tokenAt s
    .error (.unexpected token (s.drop token.length) wanted)

/-- The fault of a text that cannot go on as it does. -/
def unexpected {α : Type} (s : List Char) : Except Fault α :=
  unexpectedFor "" s

/-- The bare word at the start of a text. -/
def bareWord (s : List Char) : List Char :=
  let w := s.takeWhile (!isMeta ·)
  if w.any fun c => c == '\'' || c == '"' || c == '\\' || c == '$' || c == '\x60' then [] else w

/-- Words that end or continue a compound command. -/
def closers : List (List Char) :=
  ["then", "else", "elif", "fi", "do", "done", "esac", "\x7d"].map String.toList

/-- Whether a text starts with this bare word. -/
def startsWord (w : String) (s : List Char) : Bool :=
  bareWord s == w.toList

/-- Reads an expected bare word. -/
def expectWord (w : String) (s : List Char) : Except Fault (Unit × List Char) :=
  let s := skipAll s
  if startsWord w s then .ok ((), s.drop w.length) else unexpectedFor w s

/-! ## Redirections -/

/-- Reads a word that must be there. -/
def needWord (d : Dialect) (s : List Char) : Except Fault (Word × List Char) := do
  let s := skipGaps s
  match ← word d s with
  | (some w, rest) => return (w, rest)
  | (none, rest) => unexpected rest

/-- Reads the word of a redirection. The shell with extensions takes the end of
    the script for the end of the line. -/
def needTarget (d : Dialect) (s : List Char) : Except Fault (Word × List Char) :=
  if (skipGaps s).isEmpty && d == .bash then .error (.unexpected "newline".toList [] "")
  else needWord d s

/-- The end of a document as its word names it, and whether it is quoted. -/
def documentEnd (s rest : List Char) : List Char × Bool :=
  let raw := s.take (s.length - rest.length)
  let marks := fun (c : Char) => c == '\'' || c == '"' || c == '\\'
  (raw.filter (!marks ·), raw.any marks)

/-- Reads a document after its mark. -/
def documentTarget (src : Source) (tabs : Bool) (s : List Char) :
    Except Fault (Target × List Char) := do
  let s := skipGaps s
  let (_, rest) ← needTarget src.dialect s
  let (ending, quoted) := documentEnd s rest
  let (doc, rest) := takeDocument tabs ending rest
  let body ← if quoted then pure [Part.text doc.text true] else textParts src.dialect .document doc.text
  let line := src.lineAt s
  let wanted := if doc.isClosed then none
    else some (line + 1 + doc.text.count '\n', line, ending)
  return (.document body wanted, rest)

/-- Reads a redirection after the number or name of its stream. -/
def redirectBody (src : Source) (stream : Option Nat) (name : Option (List Char)) (s : List Char) :
    Except Fault (Redirect × List Char) := do
  let d := src.dialect
  let file (standard : Nat) (make : Word → Target) (rest : List Char) :
      Except Fault (Redirect × List Char) := do
    let (w, rest) ← needTarget d rest
    return (⟨stream.getD standard, name, make w⟩, rest)
  let document (tabs : Bool) (rest : List Char) : Except Fault (Redirect × List Char) := do
    let (t, rest) ← documentTarget src tabs rest
    return (⟨stream.getD 0, name, t⟩, rest)
  match s with
  | '>' :: '>' :: rest => file 1 .append rest
  | '>' :: '&' :: rest => file 1 (.copy · stream.isNone) rest
  | '>' :: '|' :: rest => file 1 .overwrite rest
  | '>' :: rest => file 1 .write rest
  | '<' :: '<' :: '<' :: rest =>
    if d == .bash then file 0 .here rest else document false ('<' :: rest)
  | '<' :: '<' :: '-' :: rest => document true rest
  | '<' :: '<' :: rest => document false rest
  | '<' :: '&' :: rest => file 0 (.copy · false) rest
  | '<' :: '>' :: rest => file 0 .update rest
  | '<' :: rest => file 0 .read rest
  | _ => unexpected s

/-- Whether a text starts with a process substitution. -/
def startsChannel (d : Dialect) (s : List Char) : Bool :=
  match s with
  | '>' :: '(' :: _ => d == .bash
  | '<' :: '(' :: _ => d == .bash
  | _ => false

/-- The name in braces of a stream that a redirection is to open. -/
def streamName? (d : Dialect) (s : List Char) : Option (List Char × List Char) :=
  match s with
  | '\x7b' :: rest =>
    let (name, tail) := rest.span isNameChar
    match tail with
    | '\x7d' :: '<' :: after => if isName name && d == .bash then some (name, '<' :: after) else none
    | '\x7d' :: '>' :: after => if isName name && d == .bash then some (name, '>' :: after) else none
    | _ => none
  | _ => none

/-- Reads a redirection, if one starts here. -/
def redirect? (src : Source) (s : List Char) : Except Fault (Option (List Redirect × List Char)) := do
  let d := src.dialect
  match streamName? d s with
  | some (name, rest) =>
    let (r, rest) ← redirectBody src none (some name) rest
    return some ([r], rest)
  | none =>
    let (digits, rest) := s.span Char.isDigit
    match rest with
    | '&' :: '>' :: tail =>
      if digits.isEmpty && d == .bash then
        let (appends, tail) := match tail with
          | '>' :: tail => (true, tail)
          | _ => (false, tail)
        let (w, rest) ← needTarget d tail
        return some ([⟨1, none, if appends then .append w else .write w⟩,
          ⟨2, none, .copy [.text ['1'] false] false⟩], rest)
      else return none
    | c :: _ =>
      if (c == '>' || c == '<') && !(digits.isEmpty && startsChannel d rest) then
        let (r, rest) ← redirectBody src (Text.digits? 10 digits) none rest
        return some ([r], rest)
      else return none
    | [] => return none

/-- Reads the redirections after a compound command. -/
def redirects (src : Source) : Nat → List Char → Except Fault (List Redirect × List Char)
  | 0, s => .ok ([], s)
  | fuel + 1, s => do
    match ← redirect? src (skipGaps s) with
    | none => return ([], s)
    | some (first, rest) =>
      let (more, rest) ← redirects src fuel rest
      return (first ++ more, rest)

/-! ## Assignments -/

/-- The left side of an assignment at the start of a text, and what follows
    its equals sign. -/
def assignmentHead? (d : Dialect) (s : List Char) :
    Option (List Char × Option (List Char) × Bool × List Char) :=
  let (name, rest) := s.span isNameChar
  if !isName name then none
  else
    let (subscript, rest) : Option (List Char) × List Char := match rest with
      | '[' :: tail =>
        if d == Dialect.bash then
          match upTo? .square tail with
          | some (source, rest) => (some source, rest)
          | none => (none, rest)
        else (none, rest)
      | _ => (none, rest)
    match rest with
    | '=' :: rest => some (name, subscript, false, rest)
    | '+' :: '=' :: rest => if d == .bash then some (name, subscript, true, rest) else none
    | _ => none

/-- Reads the elements of an array up to its bracket. -/
def arrayElements (d : Dialect) :
    Nat → List Char → Except Fault (List (Option (List Char) × Word) × List Char)
  | 0, s => unexpected s
  | fuel + 1, s => do
    match skipAll s with
    | ')' :: rest => return ([], rest)
    | s =>
      let (subscript, s) := match s with
        | '[' :: tail =>
          match upTo? .square tail with
          | some (source, '=' :: rest) => (some source, rest)
          | _ => (none, s)
        | _ => (none, s)
      let (w, rest) ← match ← word d s with
        | (some w, rest) => pure (w, rest)
        | (none, rest) => if subscript.isSome then pure ([], rest) else unexpected rest
      let (more, rest) ← arrayElements d fuel rest
      return ((subscript, w) :: more, rest)

/-- Reads an assignment, if one starts here. -/
def setting? (d : Dialect) (s : List Char) : Except Fault (Option (Setting × List Char)) := do
  match assignmentHead? d s with
  | none => return none
  | some (name, subscript, adds, rest) =>
    let elements := match rest with
      | '(' :: tail => if d == Dialect.bash then some tail else none
      | _ => none
    match elements with
    | some tail =>
      if (upTo? .round tail).isNone then throw (.unterminated ')' rest)
      let (items, rest) ← arrayElements d (tail.length + 1) tail
      return some (⟨name, subscript, adds, .elements items⟩, rest)
    | none =>
      let (w, rest) ← word d rest
      return some (⟨name, subscript, adds, .single (w.getD [])⟩, rest)

/-! ## Simple commands -/

/-- The parts of a simple command read so far. -/
structure Simple where
  settings : List Setting
  words : List Word
  declared : List Setting
  redirects : List Redirect

/-- The commands whose arguments may be assignments. -/
def declarers : List (List Char) :=
  ["declare", "typeset", "local", "export", "readonly"].map String.toList

/-- Whether the first word is a command that takes assignments. -/
def Simple.declares (parts : Simple) : Bool :=
  match parts.words.head?.bind plainText? with
  | some name => declarers.contains name
  | none => false

/-- Reads the assignments, words and redirections of a simple command. -/
def simpleParts (src : Source) : Nat → Simple → List Char → Except Fault (Simple × List Char)
  | 0, parts, s => .ok (parts, s)
  | fuel + 1, parts, s => do
    let d := src.dialect
    let s := skipSpace s
    match ← redirect? src s with
    | some (more, rest) =>
      simpleParts src fuel { parts with redirects := parts.redirects ++ more } rest
    | none =>
      let setting ← if parts.words.isEmpty || parts.declares then setting? d s else pure none
      match setting with
      | some (setting, rest) =>
        if parts.words.isEmpty then
          simpleParts src fuel { parts with settings := parts.settings ++ [setting] } rest
        else simpleParts src fuel { parts with declared := parts.declared ++ [setting] } rest
      | none =>
        match ← word d s with
        | (none, rest) => return (parts, rest)
        | (some w, rest) => simpleParts src fuel { parts with words := parts.words ++ [w] } rest

/-- Reads the words of a loop up to the end of their line. -/
def wordList (d : Dialect) : Nat → List Char → Except Fault (List Word × List Char)
  | 0, s => .ok ([], s)
  | fuel + 1, s => do
    match ← word d (skipSpace s) with
    | (none, rest) => return ([], rest)
    | (some w, rest) =>
      let (more, rest) ← wordList d fuel rest
      return (w :: more, rest)

/-- Reads the patterns of an arm, divided by bars, up to their bracket. -/
def patterns (d : Dialect) : Nat → List Char → Except Fault (List Word × List Char)
  | 0, s => unexpected s
  | fuel + 1, s => do
    let s := skipGaps s
    match ← word d s with
    | (none, rest) => unexpectedFor ")" rest
    | (some w, rest) =>
      match skipGaps rest with
      | '|' :: rest =>
        let (more, rest) ← patterns d fuel rest
        return (w :: more, rest)
      | ')' :: rest => return ([w], rest)
      | rest => unexpectedFor ")" rest

/-! ## Conditions -/

/-- The tests of one word. -/
def unaryTests : List (List Char) :=
  ["-a", "-b", "-c", "-d", "-e", "-f", "-g", "-h", "-k", "-p", "-r", "-s", "-t", "-u", "-w", "-x",
    "-G", "-L", "-N", "-O", "-S", "-z", "-n", "-v", "-o", "-R"].map String.toList

/-- The tests of two words. -/
def binaryTests : List (List Char) :=
  ["=", "==", "!=", "=~", "-eq", "-ne", "-lt", "-le", "-gt", "-ge", "-nt", "-ot", "-ef"].map
    String.toList

/-- The operator between two words of a condition at the start of a text. -/
def conditionOperator? (s : List Char) : Option (List Char × List Char) :=
  match s with
  | '<' :: rest => some (['<'], rest)
  | '>' :: rest => some (['>'], rest)
  | _ =>
    let w := s.takeWhile (!isMeta ·)
    if binaryTests.contains w then some (w, s.drop w.length) else none

/-- A token as complaints about conditions name it. -/
def tokenText (s : List Char) : String :=
  match s with
  | [] => "newline"
  | '\n' :: _ => "newline"
  | _ => String.ofList (tokenAt s)

/-- The fault of a condition at a token. -/
def conditionFault {α : Type} (what : List String) (s : List Char) : Except Fault α :=
  let rest := s.drop (tokenAt s).length
  .error (.condition what rest rest)

/-- Whether a word can be read here that does not end the condition. -/
def hasOperand (s : List Char) : Bool :=
  match s with
  | [] => false
  | c :: _ => !isMeta c && !startsWord "]]" s

/-- The right side of a test: patterns keep their brackets and bars. -/
def rightSide (d : Dialect) (op s : List Char) : Except Fault (Word × List Char) :=
  let s := skipGaps s
  let isPattern := (["=", "==", "!=", "=~"].map String.toList).contains op
  if !(hasOperand s || isPattern && s.head? == some '(') then
    conditionFault ["unexpected argument `" ++ tokenText s ++ "' to conditional binary operator"] s
  else if isPattern then patternWord d s
  else needWord d s

mutual

/-- Reads a condition joined by `||`. -/
def conditionOr (d : Dialect) : Nat → List Char → Except Fault (Condition × List Char)
  | 0, s => unexpected s
  | fuel + 1, s => do
    let (a, rest) ← conditionAnd d fuel s
    match skipAll rest with
    | '|' :: '|' :: rest =>
      let (b, rest) ← conditionOr d fuel rest
      return (.either a b, rest)
    | rest => return (a, rest)

/-- Reads a condition joined by `&&`. -/
def conditionAnd (d : Dialect) : Nat → List Char → Except Fault (Condition × List Char)
  | 0, s => unexpected s
  | fuel + 1, s => do
    let (a, rest) ← conditionTerm d fuel s
    match skipAll rest with
    | '&' :: '&' :: rest =>
      let (b, rest) ← conditionAnd d fuel rest
      return (.both a b, rest)
    | rest => return (a, rest)

/-- Reads a single test, perhaps negated or in brackets. -/
def conditionTerm (d : Dialect) : Nat → List Char → Except Fault (Condition × List Char)
  | 0, s => unexpected s
  | fuel + 1, s => do
    let s := skipAll s
    let misplaced := "unexpected token `" ++ tokenText s ++ "' in conditional command"
    if startsWord "!" s then
      let (c, rest) ← conditionTerm d fuel (s.drop 1)
      return (.negated c, rest)
    else
      match s with
      | [] => .error (.conditionEnded "unexpected token `EOF' in conditional command" [])
      | '(' :: rest =>
        match skipAll rest with
        | ')' :: after =>
          conditionFault ["unexpected token `)' in conditional command", "expected `)'"]
            (')' :: after)
        | _ =>
          let (c, rest) ← conditionOr d fuel rest
          match skipAll rest with
          | ')' :: rest => return (c, rest)
          | [] => .error (.conditionEnded "unexpected token `EOF', expected `)'" rest)
          | after =>
            if hasOperand after then conditionFault ["expected `)'"] after
            else conditionFault ["unexpected token `" ++ tokenText after ++ "', expected `)'"] after
      | c :: _ =>
        if startsWord "]]" s then conditionFault [] s
        else if isMeta c then conditionFault [misplaced] s
        else
          let (w, rest) ← needWord d s
          let next := skipGaps rest
          let isUnary := ((plainText? w).map unaryTests.contains).getD false
          if isUnary && hasOperand next then
            let (v, rest) ← needWord d next
            return (.unary ((plainText? w).getD []) v, rest)
          else if isUnary then
            conditionFault
              ["unexpected argument `" ++ tokenText next ++ "' to conditional unary operator"] next
          else
            match conditionOperator? next with
            | some (op, rest) =>
              let (v, rest) ← rightSide d op rest
              return (.binary w op v, rest)
            | none =>
              let isEnd : Bool := startsWord "]]" next || (match next with
                | ')' :: _ => true
                | '&' :: '&' :: _ => true
                | '|' :: '|' :: _ => true
                | _ => false)
              if isEnd then return (.filled w, rest)
              else if hasOperand next then conditionFault ["conditional binary operator expected"] next
              else
                conditionFault
                  ["unexpected token `" ++ tokenText next ++ "', conditional binary operator expected"]
                  next

end

/-- Reads the end of a condition that starts at `start`. -/
def conditionEnd (start s : List Char) : Except Fault (Unit × List Char) :=
  let s := skipAll s
  let what := "syntax error in conditional expression"
  if startsWord "]]" s then .ok ((), s.drop 2)
  else if s.isEmpty then .error (.conditionEnded "unexpected EOF while looking for `]]'" start)
  else
    let what := if hasOperand s then what else what ++ ": unexpected token `" ++ tokenText s ++ "'"
    .error (.condition [what] start (s.drop (tokenAt s).length))

/-! ## Commands -/

/-- The text in double round brackets, if a text starts with one. -/
def doubleBrackets? (d : Dialect) (s : List Char) : Option (List Char × List Char) :=
  match s with
  | '(' :: '(' :: _ =>
    if d == .plain then none
    else
      match upTo? .round (s.drop 1) with
      | some (body, rest) => if isWrapped body then some ((body.drop 1).dropLast, rest) else none
      | none => none
  | _ => none

/-- The three expressions of a counting loop. -/
def countParts (s rest : List Char) : Except Fault (List Char × List Char × List Char) :=
  let (a, tail) := splitAtMark ';' (s.length + 1) [] s
  match tail with
  | none => .error (.counting "arithmetic expression required" s rest)
  | some tail =>
    let (b, tail) := splitAtMark ';' (s.length + 1) [] tail
    match tail with
    | none => .error (.counting "arithmetic expression required" s rest)
    | some tail =>
      let (c, more) := splitAtMark ';' (s.length + 1) [] tail
      if more.isSome then .error (.counting "`;' unexpected" s rest) else .ok (a, b, c)

/-- Whether a command that holds others starts here. -/
def startsCompound (s : List Char) : Bool :=
  s.head? == some '(' || ["\x7b", "if", "while", "until", "for", "case", "[["].any (startsWord · s)

/-- Reads the end of an arm. -/
def armEnd? (d : Dialect) (s : List Char) : Option (ArmEnd × List Char) :=
  match s with
  | ';' :: ';' :: '&' :: rest => if d == .bash then some (.goOn, rest) else none
  | ';' :: ';' :: rest => some (.done, rest)
  | ';' :: '&' :: rest => if d == .bash then some (.fallThrough, rest) else none
  | _ => none

/-- A command with its errors joined to its output. -/
def withErrors (a : Tree) : Tree :=
  let extra : Redirect := ⟨2, none, .copy [.text ['1'] false] false⟩
  match a with
  | .simple line settings words declared rs => .simple line settings words declared (rs ++ [extra])
  | a => .group a [extra]

mutual

/-- Reads one command: compound or simple. -/
def command (src : Source) : Nat → List Char → Except Fault (Tree × List Char)
  | 0, s => unexpected s
  | fuel + 1, s => do
    let s := skipSpace s
    let d := src.dialect
    let line := src.lineAt s
    let after (w : String) := s.drop w.length
    let ending (rest : List Char) := redirects src (rest.length + 1) rest
    if startsWord "\x7b" s then
      let (body, rest) ← commands src fuel (after "\x7b")
      let ((), rest) ← expectWord "\x7d" rest
      let (rs, rest) ← ending rest
      return (.group body rs, rest)
    else if startsWord "if" s then
      let (tree, rest) ← branches src fuel (after "if")
      let (rs, rest) ← ending rest
      match tree with
      | .branch c y n _ => return (.branch c y n rs, rest)
      | tree => return (tree, rest)
    else if startsWord "while" s || startsWord "until" s then
      let (condition, rest) ← commands src fuel (after "while")
      let ((), rest) ← expectWord "do" rest
      let (body, rest) ← commands src fuel rest
      let ((), rest) ← expectWord "done" rest
      let (rs, rest) ← ending rest
      return (.loop (startsWord "while" s) condition body rs, rest)
    else if startsWord "for" s then
      match doubleBrackets? d (skipGaps (after "for")) with
      | some (head, rest) =>
        let (start, condition, step) ← countParts head rest
        let rest := match skipGaps rest with
          | ';' :: rest => rest
          | rest => rest
        let (body, rest) ← loopBody src fuel rest
        let (rs, rest) ← ending rest
        return (.count line start condition step body rs, rest)
      | none =>
        let start := skipGaps (after "for")
        let (_, rest) ← if d == .plain && (skipGaps start).isEmpty then
            .error (.badName "Bad for loop variable" [])
          else needTarget d start
        let name := start.take (start.length - rest.length)
        if d == .plain && !isName name then .error (.badName "Bad for loop variable" rest)
        else
          let rest := skipAll rest
          let (words, rest) ←
            if startsWord "in" rest then do
              let (ws, rest) ← wordList d (rest.length + 1) (rest.drop 2)
              pure (some ws, rest)
            else pure (none, rest)
          let rest := match skipGaps rest with
            | ';' :: rest => rest
            | rest => rest
          let (body, rest) ← loopBody src fuel rest
          let (rs, rest) ← ending rest
          return (.forEach line name words body rs, rest)
    else if startsWord "case" s then
      let (w, rest) ← needWord d (after "case")
      let ((), rest) ← expectWord "in" rest
      let (arms, rest) ← arms src fuel rest
      let ((), rest) ← expectWord "esac" rest
      let (rs, rest) ← ending rest
      return (.select line w arms rs, rest)
    else if startsWord "[[" s && d == .bash then
      let (c, rest) ← conditionOr d (s.length + 1) (after "[[")
      let ((), rest) ← conditionEnd s rest
      let (rs, rest) ← ending rest
      return (.holds line c rs, rest)
    else if startsWord "function" s && d == .bash then
      let (w, rest) ← needWord d (after "function")
      match literalText? w with
      | none => unexpected (skipGaps (after "function"))
      | some (name, _) =>
        let rest := match skipGaps rest with
          | '(' :: tail =>
            match skipGaps tail with
            | ')' :: tail => tail
            | _ => rest
          | _ => rest
        let rest := skipAll rest
        if !startsCompound rest then unexpected rest
        else
          let (body, rest) ← command src fuel rest
          return (.define name body, rest)
    else if closers.contains (bareWord s) || startsWord "in" s then unexpected s
    else
      match doubleBrackets? d s, s with
      | some (source, rest), _ => do
        let (rs, rest) ← ending rest
        return (.calculate line source rs, rest)
      | none, '(' :: rest => do
        let (body, rest) ← commands src fuel rest
        match skipAll rest with
        | ')' :: rest =>
          let (rs, rest) ← ending rest
          return (.subshell body rs, rest)
        | rest => unexpectedFor ")" rest
      | none, _ => do
        let (parts, rest) ← simpleParts src (s.length + 1) ⟨[], [], [], []⟩ s
        match parts.words, skipGaps rest with
        | [w], '(' :: tail =>
          match plainText? w, skipGaps tail with
          | some name, ')' :: tail =>
            let rest := skipAll tail
            if d == .plain && !isName name then .error (.badName "Bad function name" tail)
            else if d == .bash && !startsCompound rest then unexpected rest
            else
              let (body, rest) ← command src fuel rest
              return (.define name body, rest)
          | _, tail => unexpectedFor ")" tail
        | _, _ =>
          if parts.words.isEmpty && parts.settings.isEmpty && parts.redirects.isEmpty then
            unexpected rest
          else
            return (.simple line parts.settings parts.words parts.declared parts.redirects, rest)

/-- Reads the body of a loop over words. -/
def loopBody (src : Source) : Nat → List Char → Except Fault (Tree × List Char)
  | 0, s => unexpected s
  | fuel + 1, s => do
    let s := skipAll s
    if startsWord "\x7b" s then
      let (body, rest) ← commands src fuel (s.drop 1)
      let ((), rest) ← expectWord "\x7d" rest
      return (body, rest)
    else
      let ((), rest) ← expectWord "do" s
      let (body, rest) ← commands src fuel rest
      let ((), rest) ← expectWord "done" rest
      return (body, rest)

/-- Reads the condition and branches of an `if` up to its end. -/
def branches (src : Source) : Nat → List Char → Except Fault (Tree × List Char)
  | 0, s => unexpected s
  | fuel + 1, s => do
    let (condition, rest) ← commands src fuel s
    let ((), rest) ← expectWord "then" rest
    let (yes, rest) ← commands src fuel rest
    let rest := skipAll rest
    if startsWord "elif" rest then
      let (no, rest) ← branches src fuel (rest.drop 4)
      return (.branch condition yes no [], rest)
    else if startsWord "else" rest then
      let (no, rest) ← commands src fuel (rest.drop 4)
      let ((), rest) ← expectWord "fi" rest
      return (.branch condition yes no [], rest)
    else
      let ((), rest) ← expectWord "fi" rest
      return (.branch condition yes .skip [], rest)

/-- Reads the arms of a `case`. -/
def arms (src : Source) : Nat → List Char →
    Except Fault (List (List Word × Tree × ArmEnd) × List Char)
  | 0, s => unexpected s
  | fuel + 1, s => do
    let s := skipAll s
    if startsWord "esac" s then return ([], s)
    else
      let s := match s with
        | '(' :: rest => rest
        | _ => s
      let (ps, rest) ← patterns src.dialect (s.length + 1) s
      let start := skipAll rest
      let (body, rest) ←
        if (armEnd? src.dialect start).isSome || startsWord "esac" start then pure (.skip, start)
        else commands src fuel start
      match armEnd? src.dialect (skipAll rest) with
      | some (ending, rest) =>
        let (more, rest) ← arms src fuel rest
        return ((ps, body, ending) :: more, rest)
      | none =>
        let rest := skipAll rest
        if startsWord "esac" rest then return ([(ps, body, .done)], rest)
        else unexpectedFor ";;" rest

/-- Reads commands joined by bars. -/
def stages (src : Source) : Nat → List Char → Except Fault (List Tree × List Char)
  | 0, s => unexpected s
  | fuel + 1, s => do
    let (a, rest) ← command src fuel s
    match skipSpace rest with
    | '|' :: '|' :: tail => return ([a], '|' :: '|' :: tail)
    | '|' :: '&' :: tail =>
      if src.dialect == .plain then unexpected ('&' :: tail)
      else
        let (more, rest) ← stages src fuel (skipAll tail)
        return (withErrors a :: more, rest)
    | '|' :: tail =>
      let (more, rest) ← stages src fuel (skipAll tail)
      return (a :: more, rest)
    | rest => return ([a], rest)

/-- Reads a pipeline, perhaps negated. -/
def pipeline (src : Source) : Nat → List Char → Except Fault (Tree × List Char)
  | 0, s => unexpected s
  | fuel + 1, s => do
    let s := skipSpace s
    let isNothing (s : List Char) : Bool := match skipSpace s with
      | [] => true
      | c :: _ => c == ';' || c == '\n'
    if startsWord "!" s then
      if src.dialect == .bash && isNothing (s.drop 1) then return (.negated .skip, s.drop 1)
      else
        let (a, rest) ← pipeline src fuel (s.drop 1)
        return (.negated a, rest)
    else if startsWord "time" s && src.dialect == .bash then
      let after := skipGaps (s.drop 4)
      let (brief, after) := if startsWord "-p" after then (true, after.drop 2) else (false, after)
      if isNothing after then return (.timed brief .skip, after)
      else
        let (a, rest) ← pipeline src fuel after
        return (.timed brief a, rest)
    else
      let (all, rest) ← stages src fuel s
      match all with
      | [a] => return (a, rest)
      | all => return (.pipe all, rest)

/-- Reads what follows the first pipeline of a list joined by `&&` and `||`. -/
def joined (src : Source) : Nat → Tree → List Char → Except Fault (Tree × List Char)
  | 0, _, s => unexpected s
  | fuel + 1, a, s => do
    match skipSpace s with
    | '&' :: '&' :: rest =>
      let (b, rest) ← pipeline src fuel (skipAll rest)
      joined src fuel (.both a b) rest
    | '|' :: '|' :: rest =>
      let (b, rest) ← pipeline src fuel (skipAll rest)
      joined src fuel (.either a b) rest
    | rest => return (a, rest)

/-- Reads the commands of a compound one, over several lines, up to a word or
    bracket that cannot start a command. -/
def commands (src : Source) : Nat → List Char → Except Fault (Tree × List Char)
  | 0, s => unexpected s
  | fuel + 1, s => do
    let (a, rest) ← pipeline src fuel (skipAll s)
    let (a, rest) ← joined src fuel a rest
    let rest := skipSpace rest
    let a := match rest with
      | '&' :: _ => .background a
      | _ => a
    let next := match rest with
      | ';' :: ';' :: _ => none
      | ';' :: '&' :: _ => none
      | ';' :: rest => some (skipAll rest)
      | '&' :: rest => some (skipAll rest)
      | '\n' :: rest => some (skipAll rest)
      | _ => none
    match next with
    | none => return (a, rest)
    | some next =>
      let isEnd := match next with
        | [] => true
        | ')' :: _ => true
        | _ => (armEnd? src.dialect next).isSome || closers.contains (bareWord next)
      if isEnd then return (a, next)
      else
        let (b, rest) ← commands src fuel next
        return (.sequence a b, rest)

end

/-- Reads the commands of one line. -/
def lineOf (src : Source) : Nat → List Char → Except Fault (Tree × List Char)
  | 0, s => unexpected s
  | fuel + 1, s => do
    let (a, rest) ← pipeline src fuel s
    let (a, rest) ← joined src fuel a rest
    let goOn (a : Tree) (rest : List Char) : Except Fault (Tree × List Char) :=
      match skipSpace rest with
      | [] => .ok (a, [])
      | '\n' :: rest => .ok (a, rest)
      | rest => do
        let (b, rest) ← lineOf src fuel rest
        return (.sequence a b, rest)
    match skipSpace rest with
    | [] => return (a, [])
    | '\n' :: rest => return (a, rest)
    | ';' :: ';' :: rest => unexpected (';' :: ';' :: rest)
    | ';' :: rest => goOn a rest
    | '&' :: rest => goOn (.background a) rest
    | rest => unexpected rest

/-- Reads the next line of commands of a script; none at its end. -/
def next? (src : Source) (s : List Char) : Except Fault (Option (Tree × List Char)) :=
  match skipAll s with
  | [] => .ok none
  | rest => (lineOf src (2 * rest.length + 2) rest).map some

end CompilerRemarks.Shell
