/-
  CompilerRemarks.ShellWords

  Splitting a command line into words by the quoting rules of a POSIX shell,
  and joining words into a line that splits into them again. Nothing is
  expanded.
-/

namespace CompilerRemarks.ShellWords

/-! ## Splitting -/

/-- What separates words. -/
def isSeparator (c : Char) : Bool :=
  c == ' ' || c == '\t' || c == '\n'

/-- What a backslash escapes inside double quotes, besides a line break. -/
def isEscapable (c : Char) : Bool :=
  c == '$' || c == '\x60' || c == '"' || c == '\\'

/-- Where a splitter stands. -/
inductive State where
  /-- Between words. -/
  | between
  /-- In a comment. -/
  | comment
  /-- In a word, outside quotes; the word so far is reversed. -/
  | word (acc : List Char)
  /-- After a backslash in a word. -/
  | escaped (acc : List Char)
  /-- In single quotes. -/
  | single (acc : List Char)
  /-- In double quotes. -/
  | double (acc : List Char)
  /-- After a backslash in double quotes. -/
  | doubleEscaped (acc : List Char)
  deriving DecidableEq, Repr

/-- One character of a word outside quotes. -/
def State.inWord (acc : List Char) (c : Char) : State :=
  if c == '"' then .double acc
  else if c == '\'' then .single acc
  else if c == '\\' then .escaped acc
  else .word (c :: acc)

/-- One character: the word that it ends, if it ends one, and the next state. -/
def State.step : State → Char → Option (List Char) × State
  | .between, c =>
    if isSeparator c then (none, .between)
    else if c == '#' then (none, .comment)
    else (none, .inWord [] c)
  | .comment, c => (none, if c == '\n' then .between else .comment)
  | .word acc, c =>
    if isSeparator c then (some acc.reverse, .between) else (none, .inWord acc c)
  | .escaped acc, c => (none, .word (if c == '\n' then acc else c :: acc))
  | .single acc, c => (none, if c == '\'' then .word acc else .single (c :: acc))
  | .double acc, c =>
    (none, if c == '"' then .word acc
      else if c == '\\' then .doubleEscaped acc
      else .double (c :: acc))
  | .doubleEscaped acc, c =>
    (none, .double (if c == '\n' then acc
      else if isEscapable c then c :: acc
      else c :: '\\' :: acc))

/-- Splits from a state on; `none` if a quote or an escape is left open. -/
def splitFrom : State → List Char → Option (List (List Char))
  | .between, [] => some []
  | .comment, [] => some []
  | .word acc, [] => some [acc.reverse]
  | _, [] => none
  | s, c :: rest =>
    match s.step c with
    | (some w, next) => (splitFrom next rest).map (w :: ·)
    | (none, next) => splitFrom next rest

/-- The words of a line; `none` if its quotes are not balanced. -/
def split? (line : String) : Option (List String) :=
  (splitFrom .between line.toList).map (·.map String.ofList)

/-! ## Joining -/

/-- Characters that need no quotes. -/
def isBare (c : Char) : Bool :=
  ('0' ≤ c && c ≤ '9') || ('A' ≤ c && c ≤ 'Z') || ('a' ≤ c && c ≤ 'z') ||
    c == '+' || c == '-' || c == '.' || c == '/' || c == ':' || c == '@' || c == ']' || c == '_'

/-- Characters that may stand in single quotes; a caret only right after the
    opening one. -/
def isSingle (c : Char) : Bool :=
  !(c == '\'' || c == '^' || c == '\\')

/-- Characters that may stand in double quotes. -/
def isDouble (c : Char) : Bool :=
  !(c == '\x60' || c == '$' || c == '!' || c == '^')

/-- The ways in which the characters so far can be written. -/
structure Ways where
  bare : Bool
  single : Bool
  double : Bool
  deriving DecidableEq, Repr

/-- The ways left after one more character. -/
def Ways.after (w : Ways) (c : Char) : Ways :=
  ⟨w.bare && isBare c, w.single && isSingle c, w.double && isDouble c⟩

/-- Whether no way is left. -/
def Ways.isNone (w : Ways) : Bool :=
  !(w.bare || w.single || w.double)

/-- The longest start of a word that can be written in one way: its
    characters, the ways, and the rest. -/
def chunk : Ways → List Char → List Char × Ways × List Char
  | w, [] => ([], w, [])
  | w, c :: rest =>
    let w' := w.after c
    if w'.isNone then ([], w, c :: rest)
    else
      let (taken, ways, rest) := chunk w' rest
      (c :: taken, ways, rest)

/-- A character in double quotes. -/
def escapeDouble (c : Char) : List Char :=
  if isEscapable c then ['\\', c] else [c]

/-- A chunk written in its plainest way. -/
def writeChunk (ways : Ways) (s : List Char) : List Char :=
  if ways.bare then s
  else if ways.single then '\'' :: s ++ ['\'']
  else '"' :: s.flatMap escapeDouble ++ ['"']

/-- Writes a word chunk by chunk. -/
def quoteChunks : Nat → List Char → List Char
  | 0, _ => []
  | _ + 1, [] => []
  | fuel + 1, c :: rest =>
    let (taken, ways, rest) :=
      if c == '^' then
        let (taken, ways, rest) := chunk ⟨false, true, false⟩ rest
        ('^' :: taken, ways, rest)
      else
        let (taken, ways, rest) := chunk ((⟨true, true, true⟩ : Ways).after c) rest
        (c :: taken, ways, rest)
    writeChunk ways taken ++ quoteChunks fuel rest

/-- A word written so that it splits into itself. -/
def quote (word : List Char) : List Char :=
  if word.isEmpty then ['\'', '\''] else quoteChunks word.length word

/-- Words written on one line; `none` if one of them holds a NUL. -/
def join? (words : List String) : Option String :=
  if words.any fun w => w.toList.contains '\x00' then none
  else some (" ".intercalate (words.map fun w => String.ofList (quote w.toList)))

end CompilerRemarks.ShellWords
