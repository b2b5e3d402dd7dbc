/-
  CompilerRemarks.Shell.Word

  Reading the words of a script with their quotes and expansions.
-/
import CompilerRemarks.Shell.Nesting
import CompilerRemarks.Shell.Script

namespace CompilerRemarks.Shell

/-! ## Parameters -/

/-- The parts of a text before and after the first mark outside of quotes. -/
def splitAtMark (mark : Char) : Nat → List Char → List Char → List Char × Option (List Char)
  | 0, acc, s => (acc.reverse ++ s, none)
  | _, acc, [] => (acc.reverse, none)
  | fuel + 1, acc, '\\' :: c :: rest => splitAtMark mark fuel (c :: '\\' :: acc) rest
  | fuel + 1, acc, c :: rest =>
    if c == mark then (acc.reverse, some rest)
    else if c == '\'' || c == '"' then
      let body := rest.takeWhile (· ≠ c)
      splitAtMark mark fuel ((c :: body ++ (rest.drop body.length).take 1).reverse ++ acc)
        (rest.drop (body.length + 1))
    else splitAtMark mark fuel (c :: acc) rest

/-- A replacement in a value, after its slash. -/
def replacement (s : List Char) : Change :=
  let make (extent : Extent) (body : List Char) : Change :=
    let (pattern, text) := splitAtMark '/' (body.length + 1) [] body
    .replace extent pattern (text.getD [])
  match s with
  | '/' :: body => make .every body
  | '#' :: body => make .atStart body
  | '%' :: body => make .atEnd body
  | body => make .first body

/-- A part of a value, after its colon. -/
def sliceOf (s : List Char) : Change :=
  let (offset, length) := splitAtMark ':' (s.length + 1) [] s
  .slice offset length

/-- What follows the name of a parameter in braces. -/
def change? (d : Dialect) (s : List Char) : Option Change :=
  match s with
  | [] => some .none
  | '#' :: '#' :: p => some (.dropStart true p)
  | '#' :: p => some (.dropStart false p)
  | '%' :: '%' :: p => some (.dropEnd true p)
  | '%' :: p => some (.dropEnd false p)
  | ':' :: '-' :: t => some (.orElse true t)
  | '-' :: t => some (.orElse false t)
  | ':' :: '+' :: t => some (.ifSet true t)
  | '+' :: t => some (.ifSet false t)
  | ':' :: '=' :: t => some (.orSet true t)
  | '=' :: t => some (.orSet false t)
  | ':' :: '?' :: t => some (.orFail true t)
  | '?' :: t => some (.orFail false t)
  | _ =>
    if d == .plain then none
    else
      match s with
      | ':' :: t => if t.isEmpty then none else some (sliceOf t)
      | '/' :: t => some (replacement t)
      | ['^', '^'] => some (.recase true true)
      | ['^'] => some (.recase true false)
      | [',', ','] => some (.recase false true)
      | [','] => some (.recase false false)
      | ['@', 'Q'] => some .requote
      | ['@', 'U'] => some (.recase true true)
      | ['@', 'u'] => some (.recase true false)
      | ['@', 'L'] => some (.recase false true)
      | _ => none

/-- Reads the name and subscript of a parameter. -/
def reference? (d : Dialect) (s : List Char) : Option (Reference × List Char) :=
  match s with
  | [] => none
  | c :: rest =>
    if isNameStart c then
      let (name, rest) := s.span isNameChar
      match rest with
      | '[' :: tail =>
        if d == .plain then none
        else
          match upTo? .square tail with
          | none => none
          | some (['@'], rest) => some (⟨name, some (.all false), false, true⟩, rest)
          | some (['*'], rest) => some (⟨name, some (.all true), false, true⟩, rest)
          | some (source, rest) => some (⟨name, some (.at source), false, true⟩, rest)
      | rest => some (⟨name, none, false, true⟩, rest)
    else if c.isDigit then
      let (name, rest) := s.span Char.isDigit
      some (⟨name, none, false, true⟩, rest)
    else if isSpecial c then some (⟨[c], none, false, true⟩, rest)
    else none

/-- The parameter of a text in braces. -/
def braced (d : Dialect) (quoted : Bool) (s : List Char) : Part :=
  let plain : Part := match reference? d s with
    | some (ref, rest) =>
      match change? d rest with
      | some change => .parameter ref change quoted
      | none => .senseless s
    | none => .senseless s
  match s with
  | '#' :: c :: rest =>
    match reference? d (c :: rest) with
    | some (ref, []) => .parameter ref .size quoted
    | _ => plain
  | '!' :: c :: rest =>
    if d == .plain then plain
    else
      match reference? d (c :: rest) with
      | some (ref, tail) =>
        match ref.subscript, tail with
        | some (.all _), [] => .parameter ref .keys quoted
        | _, _ =>
          match change? d tail with
          | some change => .parameter { ref with indirect := true } change quoted
          | none => .senseless s
      | none => plain
  | _ => plain

/-- Whether the first bracket of a text closes at its end. -/
def isWrapped (s : List Char) : Bool :=
  match s with
  | '(' :: rest =>
    match upTo? .round rest with
    | some (_, []) => true
    | _ => false
  | _ => false

/-- What is wrong with a nest that is not closed. Within quotes the plain shell
    misses their end and not that of braces. -/
def Nest.fault (d : Dialect) (quoted : Bool) (o : Open) : Fault :=
  match o.1 with
  | .round => .unclosed
  | .arms => .unclosed
  | .curly _ => .unterminated (if quoted && d == .plain then '"' else o.1.mark) o.2
  | nest => .unterminated nest.mark o.2

/-- Reads an expansion after its dollar sign; a dollar sign before anything
    else stands for itself. -/
def expansion (d : Dialect) (quoted : Bool) (s : List Char) : Except Fault (Part × List Char) :=
  match s with
  | '\x7b' :: rest =>
    match upTo (.curly (!quoted || holdsPattern rest)) rest with
    | .error o => .error (Nest.fault d quoted o)
    | .ok (body, rest) => .ok (braced d quoted body, rest)
  | '(' :: rest =>
    match upTo .round rest with
    | .error o =>
      if rest.head? == some '(' && o.1 == .round then .error (.unterminated ')' s)
      else .error (Nest.fault d quoted o)
    | .ok (body, rest) =>
      if isWrapped body then .ok (.arithmetic ((body.drop 1).dropLast) quoted, rest)
      else .ok (.capture body quoted, rest)
  | c :: rest =>
    if isNameStart c then
      let (name, rest) := s.span isNameChar
      .ok (.parameter ⟨name, none, false, false⟩ .none quoted, rest)
    else if isSpecial c then .ok (.parameter ⟨[c], none, false, false⟩ .none quoted, rest)
    else .ok (.text ['$'] quoted, s)
  | [] => .ok (.text ['$'] quoted, [])

/-- The text up to a closing backquote; a backslash hides one. -/
def backquoted? : List Char → List Char → Option (List Char × List Char)
  | _, [] => none
  | acc, '\x60' :: rest => some (acc.reverse, rest)
  | acc, '\\' :: c :: rest =>
    if c == '\x60' || c == '\\' || c == '$' then backquoted? (c :: acc) rest
    else backquoted? (c :: '\\' :: acc) rest
  | acc, c :: rest => backquoted? (c :: acc) rest

/-! ## Quotes -/

/-- Where text with expansions but without words ends. -/
inductive TextEnd where
  /-- At a double quote. -/
  | quote
  /-- At the end of the text; double quotes belong to it. -/
  | document
  /-- At the end of the text; double quotes are dropped. -/
  | operand
  deriving DecidableEq

/-- Reads text in which only expansions count, up to its end. Quotes around
    nothing are a part of their own, so that they make an empty word. `start`
    is the text from its first quote on. -/
def quotedParts (d : Dialect) (ends : TextEnd) (start : List Char) :
    Nat → List Part → List Char → List Char → Except Fault (List Part × List Char)
  | 0, _, _, _ => .error (.unterminated '"' start)
  | fuel + 1, parts, acc, s =>
    let flushed := if acc.isEmpty then parts else parts ++ [.text acc.reverse true]
    match s with
    | [] =>
      if ends == .quote then .error (.unterminated '"' start)
      else .ok (if flushed.isEmpty then [.text [] true] else flushed, [])
    | '"' :: rest =>
      match ends with
      | .quote => .ok (if flushed.isEmpty then [.text [] true] else flushed, rest)
      | .document => quotedParts d ends start fuel parts ('"' :: acc) rest
      | .operand => quotedParts d ends start fuel parts acc rest
    | '\\' :: '\n' :: rest => quotedParts d ends start fuel parts acc rest
    | '\\' :: c :: rest =>
      if c == '$' || c == '\x60' || c == '\\' || (c == '"' && ends != .document) ||
          (c == '\x7d' && ends == .operand) then
        quotedParts d ends start fuel parts (c :: acc) rest
      else quotedParts d ends start fuel parts (c :: '\\' :: acc) rest
    | '$' :: rest => do
      let (part, rest) ← expansion d true rest
      quotedParts d ends start fuel (flushed ++ [part]) [] rest
    | '\x60' :: rest =>
      match backquoted? [] rest with
      | none => .error (.unterminated '\x60' s)
      | some (body, rest) => quotedParts d ends start fuel (flushed ++ [.capture body true]) [] rest
    | c :: rest => quotedParts d ends start fuel parts (c :: acc) rest

/-- The parts of a text in which only expansions count. -/
def textParts (d : Dialect) (ends : TextEnd) (s : List Char) : Except Fault Word :=
  (quotedParts d ends s (s.length + 1) [] [] s).map (·.1)

/-! ## Words -/

/-- Where a word ends. -/
inductive WordEnd where
  /-- At a character between words. -/
  | gap
  /-- At the end of the text. -/
  | text
  /-- At a blank outside of round brackets, of which this many are open. -/
  | pattern (depth : Nat)
  deriving DecidableEq

/-- What becomes of a plain character: whether it ends the word, and how the
    word goes on after it. -/
def WordEnd.step (ends : WordEnd) (c : Char) : Option WordEnd :=
  match ends with
  | .gap => if isMeta c then none else some .gap
  | .text => some .text
  | .pattern depth =>
    if c == '(' then some (.pattern (depth + 1))
    else if c == ')' then (if depth == 0 then none else some (.pattern (depth - 1)))
    else if isGap c || c == '\n' || c == ';' || c == '&' then
      (if depth == 0 then none else some ends)
    else some ends

/-- Adds the plain characters read so far as a part. -/
def flush (parts : List Part) (acc : List Char) : List Part :=
  if acc.isEmpty then parts else parts ++ [.text acc.reverse false]

/-- Reads a word from its first character. -/
def wordFrom (d : Dialect) :
    Nat → WordEnd → List Part → List Char → List Char → Except Fault (List Part × List Char)
  | 0, _, _, _, _ => .error (.ended "")
  | fuel + 1, ends, parts, acc, s =>
    let flushed := flush parts acc
    match s with
    | [] => .ok (flushed, [])
    | '\\' :: '\n' :: rest => wordFrom d fuel ends parts acc rest
    | '\\' :: c :: rest => wordFrom d fuel ends (flushed ++ [.text [c] true]) [] rest
    | ['\\'] => .ok (flushed ++ [.text ['\\'] true], [])
    | '\'' :: rest =>
      let (body, tail) := rest.span (· ≠ '\'')
      match tail with
      | _ :: rest => wordFrom d fuel ends (flushed ++ [.text body true]) [] rest
      | [] => .error (.unterminated '\'' s)
    | '"' :: rest => do
      let (inner, rest) ← quotedParts d .quote s (rest.length + 1) [] [] rest
      wordFrom d fuel ends (flushed ++ inner) [] rest
    | '$' :: '\'' :: rest =>
      if d == .plain then wordFrom d fuel ends parts ('$' :: acc) ('\'' :: rest)
      else
        match escapedQuote? [] rest with
        | none => .error (.unterminated '\'' s)
        | some (body, rest) =>
          let (bytes, _) := unescape d .quoted (body.length + 1) body
          wordFrom d fuel ends (flushed ++ [.text (textOf bytes) true]) [] rest
    | '$' :: '"' :: rest =>
      if d == .plain then wordFrom d fuel ends parts ('$' :: acc) ('"' :: rest)
      else wordFrom d fuel ends parts acc ('"' :: rest)
    | '$' :: rest => do
      let (part, rest) ← expansion d false rest
      wordFrom d fuel ends (flushed ++ [part]) [] rest
    | '\x60' :: rest =>
      match backquoted? [] rest with
      | none => .error (.unterminated '\x60' s)
      | some (body, rest) => wordFrom d fuel ends (flushed ++ [.capture body false]) [] rest
    | c :: rest =>
      let opens : Bool := rest.head? == some '(' && (c == '<' || c == '>')
      if opens && d == .bash && ends == .gap then
        match upTo .round (rest.drop 1) with
        | .error o => .error (Nest.fault d false o)
        | .ok (body, rest) => wordFrom d fuel ends (flushed ++ [.channel (c == '>') body]) [] rest
      else
        match ends.step c with
        | none => .ok (flushed, s)
        | some ends => wordFrom d fuel ends parts (c :: acc) rest

/-- Reads a word; none where a word cannot start. -/
def word (d : Dialect) (s : List Char) : Except Fault (Option Word × List Char) := do
  let (parts, rest) ← wordFrom d (s.length + 1) .gap [] [] s
  if rest.length == s.length then return (none, s) else return (some parts, rest)

/-- The word that is a whole text, blanks and all. -/
def wholeWord (d : Dialect) (s : List Char) : Except Fault Word :=
  (wordFrom d (s.length + 1) .text [] [] s).map (·.1)

/-- Reads a pattern in which round brackets and bars stand for themselves. -/
def patternWord (d : Dialect) (s : List Char) : Except Fault (Word × List Char) :=
  wordFrom d (s.length + 1) (.pattern 0) [] [] s

/-- The text of a word without quotes or expansions. -/
def plainText? (w : Word) : Option (List Char) :=
  match w with
  | [.text s false] => some s
  | _ => none

/-- The text of a word as it stands, and whether any of it is quoted; `none`
    if it has expansions. -/
def literalText? (w : Word) : Option (List Char × Bool) :=
  w.foldl (fun acc p => match acc, p with
    | some (s, q), .text t quoted => some (s ++ t, q || quoted)
    | _, _ => none) (some ([], false))

end CompilerRemarks.Shell
