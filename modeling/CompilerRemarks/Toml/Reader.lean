/-
  CompilerRemarks.Toml.Reader

  The statements of a TOML document: keys, values and table headers.
  Brackets and braces nest at most 80 deep, and a key has at most 80 parts;
  inside braces, line breaks around a key and its value and a comma after the
  last member are allowed.
-/
import CompilerRemarks.Toml.Scalar
import CompilerRemarks.Toml.Quoted
import CompilerRemarks.Toml.Table

namespace CompilerRemarks.Toml

/-! ## Space and comments -/

/-- Drops spaces and tabs. -/
def skipSpaces (s : List Char) : List Char :=
  s.dropWhile isSpace

/-- The rest after a line break. -/
def lineBreak? : List Char → Option (List Char)
  | '\n' :: rest => some rest
  | '\r' :: '\n' :: rest => some rest
  | _ => none

/-- Reads a comment up to the end of its line. -/
def comment? : List Char → Option (List Char)
  | [] => some []
  | '\n' :: rest => some ('\n' :: rest)
  | '\r' :: '\n' :: rest => some ('\r' :: '\n' :: rest)
  | c :: rest => if isForbidden c then none else comment? rest

/-- Reads to the end of a line: spaces, perhaps a comment, a line break or
    the end of the text. -/
def lineEnd? (s : List Char) : Option (List Char) :=
  match skipSpaces s with
  | [] => some []
  | '#' :: rest =>
    match comment? rest with
    | some [] => some []
    | some rest => lineBreak? rest
    | none => none
  | rest => lineBreak? rest

/-- Drops spaces, line breaks and comments. -/
def skipBlank? : Nat → List Char → Option (List Char)
  | 0, _ => none
  | fuel + 1, s =>
    match skipSpaces s with
    | '#' :: rest => (comment? rest).bind (skipBlank? fuel)
    | rest =>
      match lineBreak? rest with
      | some rest => skipBlank? fuel rest
      | none => some rest

/-- Drops spaces, line breaks and comments. -/
def blanks? (s : List Char) : Option (List Char) :=
  skipBlank? (s.length + 1) s

/-! ## Keys -/

/-- Characters of a bare key. -/
def isBare (c : Char) : Bool :=
  c.isAlphanum || c == '_' || c == '-'

/-- Reads one part of a key: bare, or in quotes on one line. -/
def keyPart? (s : List Char) : Option (String × List Char) :=
  let quoted := match s with
    | '"' :: '"' :: '"' :: _ => none
    | '\'' :: '\'' :: '\'' :: _ => none
    | _ => quoted? s
  match quoted with
  | some (text, rest) => some (String.ofList text, rest)
  | none =>
    let (bare, rest) := s.span isBare
    if bare.isEmpty then none else some (String.ofList bare, rest)

/-- Reads a key, whose parts are joined by dots. -/
def keyParts? : Nat → List Char → Option (List String × List Char)
  | 0, _ => none
  | fuel + 1, s =>
    match keyPart? (skipSpaces s) with
    | none => none
    | some (part, rest) =>
      match skipSpaces rest with
      | '.' :: rest => (keyParts? fuel rest).map fun (parts, rest) => (part :: parts, rest)
      | rest => some ([part], rest)

/-- How deep brackets and braces may nest, and how many parts a key may have. -/
def maxDepth : Nat := 80

/-- Reads a key, whose parts are joined by dots. -/
def key? (s : List Char) : Option (List String × List Char) :=
  (keyParts? (s.length + 1) s).filter fun (parts, _) => parts.length ≤ maxDepth

/-! ## Values -/

/-- Characters that a bare word cannot hold. -/
def endsWord (c : Char) : Bool :=
  isSpace c || c == '\n' || c == '\r' || c == '#' || c == ',' || c == '=' ||
    c == '[' || c == ']' || c == '\x7b' || c == '\x7d' || c == '"' || c == '\''

/-- Splits off a bare word. One space may part the date from the time. -/
def word (s : List Char) : List Char × List Char :=
  let (first, rest) := s.span fun c => !endsWord c
  match date? first, rest with
  | some [], ' ' :: c :: tail =>
    if isDigitOf 10 c then
      let (second, rest) := (c :: tail).span fun c => !endsWord c
      (first ++ ' ' :: second, rest)
    else (first, rest)
  | _, _ => (first, rest)

mutual

/-- Reads a value; `depth` more levels of nesting are allowed. -/
def value? : Nat → Nat → List Char → Option (Toml × List Char)
  | 0, _, _ => none
  | fuel + 1, depth, s =>
    match s with
    | '"' :: _ => (quoted? s).map fun (t, rest) => (.string (String.ofList t), rest)
    | '\'' :: _ => (quoted? s).map fun (t, rest) => (.string (String.ofList t), rest)
    | '[' :: rest =>
      match depth with
      | 0 => none
      | depth + 1 => (items? fuel depth rest).map fun (items, rest) => (.array items, rest)
    | '\x7b' :: rest =>
      match depth with
      | 0 => none
      | depth + 1 => (members? fuel depth [] rest).map fun (ms, rest) => (.table .inline ms, rest)
    | _ =>
      let (w, rest) := word s
      (ofWord? w).map (·, rest)

/-- Reads the items of a list up to its bracket. -/
def items? : Nat → Nat → List Char → Option (List Toml × List Char)
  | 0, _, _ => none
  | fuel + 1, depth, s =>
    match blanks? s with
    | none => none
    | some (']' :: rest) => some ([], rest)
    | some s =>
      match value? fuel depth s with
      | none => none
      | some (item, rest) =>
        match blanks? rest with
        | some (']' :: rest) => some ([item], rest)
        | some (',' :: rest) => (items? fuel depth rest).map fun (items, rest) => (item :: items, rest)
        | _ => none

/-- Reads the members of an inline table up to its brace. -/
def members? : Nat → Nat → Members → List Char → Option (Members × List Char)
  | 0, _, _, _ => none
  | fuel + 1, depth, members, s =>
    match blanks? s with
    | none => none
    | some ('\x7d' :: rest) => some (members, rest)
    | some s =>
      match key? s with
      | none => none
      | some (path, rest) =>
        match (blanks? rest).bind (expect? '=') |>.bind blanks? with
        | none => none
        | some rest =>
          match value? fuel depth rest with
          | none => none
          | some (v, rest) =>
            match assign? v path members with
            | none => none
            | some members =>
              match blanks? rest with
              | some ('\x7d' :: rest) => some (members, rest)
              | some (',' :: rest) => members? fuel depth members rest
              | _ => none

end

/-! ## Statements -/

/-- One statement of a document. -/
inductive Statement where
  /-- `key = value`, in the table opened last. -/
  | assign (path : List String) (value : Toml)
  /-- `[path]` -/
  | openTable (path : List String)
  /-- `[[path]]` -/
  | openEntry (path : List String)

/-- Reads a header after its first bracket. -/
def header? (s : List Char) : Option (Statement × List Char) :=
  match s with
  | '[' :: rest =>
    match key? rest with
    | some (path, ']' :: ']' :: rest) => some (.openEntry path, rest)
    | _ => none
  | _ =>
    match key? s with
    | some (path, ']' :: rest) => some (.openTable path, rest)
    | _ => none

/-- Reads one statement. -/
def statement? (s : List Char) : Option (Statement × List Char) :=
  match s with
  | '[' :: rest => header? rest
  | _ =>
    match key? s with
    | some (path, '=' :: rest) =>
      (value? (2 * s.length + 2) maxDepth (skipSpaces rest)).map fun (v, rest) => (.assign path v, rest)
    | _ => none

/-- Reads the statements of a document, each on lines of its own. -/
def statements? : Nat → List Char → Option (List Statement)
  | 0, _ => none
  | fuel + 1, s =>
    match blanks? s with
    | none => none
    | some [] => some []
    | some s =>
      match statement? s with
      | none => none
      | some (first, rest) =>
        match lineEnd? rest with
        | none => none
        | some rest => (statements? fuel rest).map (first :: ·)

/-! ## Documents -/

/-- Applies a statement to the table at the top; `current` leads to the table
    opened last. -/
def Statement.apply? (st : List String × Members) : Statement → Option (List String × Members)
  | .assign path v => (reach? (assign? v path) st.1 st.2).map (st.1, ·)
  | .openTable path => (open? declare? path st.2).map (path, ·)
  | .openEntry path => (open? append? path st.2).map (path, ·)

/-- The text without a byte-order mark. -/
def dropMark : List Char → List Char
  | '\uFEFF' :: rest => rest
  | s => s

/-- The table of a TOML document. -/
def ofChars? (s : List Char) : Option Toml := do
  let text := dropMark s
  let statements ← statements? (text.length + 1) text
  let (_, members) ← statements.foldlM Statement.apply? ([], [])
  return .table .header members

end CompilerRemarks.Toml
