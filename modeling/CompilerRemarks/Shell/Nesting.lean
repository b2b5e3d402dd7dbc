/-
  CompilerRemarks.Shell.Nesting

  Quotes and brackets within each other. What stands in brackets is kept as it
  is written and read again when it is needed, so all that has to be known
  here is where it ends.
-/
import CompilerRemarks.Shell.Escape

namespace CompilerRemarks.Shell

/-! ## Characters -/

/-- Blanks between the words of a line. -/
def isGap (c : Char) : Bool :=
  c == ' ' || c == '\t'

/-- Characters that end a word. -/
def isMeta (c : Char) : Bool :=
  isGap c || c == '\n' || c == ';' || c == '&' || c == '|' || c == '<' || c == '>' ||
    c == '(' || c == ')'

/-- First characters of a name. -/
def isNameStart (c : Char) : Bool :=
  c.isAlpha || c == '_'

/-- Characters of a name. -/
def isNameChar (c : Char) : Bool :=
  isNameStart c || c.isDigit

/-- Whether a text is a name. -/
def isName (s : List Char) : Bool :=
  match s with
  | c :: rest => isNameStart c && rest.all isNameChar
  | [] => false

/-- Parameters of one character that is no letter. -/
def isSpecial (c : Char) : Bool :=
  c.isDigit || c == '@' || c == '*' || c == '#' || c == '?' || c == '$' || c == '!' || c == '-'

/-- What stands in the place of lines that have been read already. -/
def blot : Char := '\x00'

/-- Drops blanks, blots and escaped line ends. -/
def skipGaps : List Char → List Char
  | '\\' :: '\n' :: rest => skipGaps rest
  | c :: rest => if isGap c || c == blot then skipGaps rest else c :: rest
  | [] => []

/-- Drops blanks and a comment after them. -/
def skipSpace (s : List Char) : List Char :=
  match skipGaps s with
  | '#' :: rest => rest.dropWhile (· ≠ '\n')
  | rest => rest

/-! ## Nests -/

/-- What is open at a place of a script. -/
inductive Nest where
  /-- Round brackets around commands or an expression. -/
  | round
  /-- Braces around a parameter; `bare` tells that quotes count in them. -/
  | curly (bare : Bool)
  | square
  | single
  /-- Single quotes with escapes. -/
  | escaped
  | double
  | back
  /-- A selection, in which a closing bracket ends patterns. -/
  | arms
  deriving DecidableEq

/-- The mark that would close a nest. -/
def Nest.mark : Nest → Char
  | .round => ')'
  | .curly _ => '\x7d'
  | .square => ']'
  | .single => '\''
  | .escaped => '\''
  | .double => '"'
  | .back => '\x60'
  | .arms => ')'

/-- Whether quotes count in a nest. -/
def Nest.isBare : Nest → Bool
  | .round => true
  | .curly bare => bare
  | .square => true
  | .arms => true
  | _ => false

/-- Whether a nest holds commands. -/
def Nest.hasCommands : Nest → Bool
  | .round => true
  | .arms => true
  | _ => false

/-- Whether the braces of a parameter hold a pattern, in which quotes count. -/
def holdsPattern (s : List Char) : Bool :=
  let tail := match s with
    | c :: rest => if isNameStart c then s.dropWhile isNameChar else if isSpecial c then rest else s
    | [] => []
  let tail := match tail with
    | '[' :: inner => (inner.dropWhile (· ≠ ']')).drop 1
    | _ => tail
  match tail with
  | c :: _ => c == '#' || c == '%' || c == '/' || c == '^' || c == ','
  | [] => false

/-- Whether commands may start after a text, which is given backwards. -/
def endsCommand (acc : List Char) : Bool :=
  match acc.dropWhile isGap with
  | [] => true
  | c :: _ =>
    if c == '(' || c == ')' || c == ';' || c == '&' || c == '|' || c == '\n' || c == '\x7b' then true
    else
      let w := ((acc.dropWhile isGap).takeWhile (!isMeta ·)).reverse
      (["then", "do", "else", "elif", "if", "while", "until", "in", "!"].map String.toList).contains w

/-- Whether a word stands alone at the start of a text. -/
def hasWord (w : String) (s : List Char) : Bool :=
  w.toList.isPrefixOf s && ((s.drop w.length).head?.map isMeta).getD true

/-- A document that is to be skipped: whether tabs at the start of its lines do
    not count, and its last line. -/
abbrev Awaited := Bool × List Char

/-- Whether the name of a document follows a double mark, and not the right
    side of a shift. -/
def namesDocument (s : List Char) : Bool :=
  let s := match s with
    | '-' :: rest => rest
    | _ => s
  match s.dropWhile isGap with
  | c :: _ => !isMeta c && !c.isDigit
  | [] => false

/-- The document that a mark announces, and what follows its name. -/
def awaited (s : List Char) : Awaited × List Char × List Char :=
  let (tabs, s) := match s with
    | '-' :: rest => (true, rest)
    | _ => (false, s)
  let gaps := s.takeWhile isGap
  let name := (s.drop gaps.length).takeWhile (!isMeta ·)
  let plain := name.filter fun c => c != '\'' && c != '"' && c != '\\'
  let mark := if tabs then ['-'] else []
  ((tabs, plain), mark ++ gaps ++ name, s.drop (gaps.length + name.length))

/-- The lines of a document, its last line included, and what follows. -/
def skipDocument (doc : Awaited) : Nat → List Char → List Char × List Char
  | 0, s => ([], s)
  | _, [] => ([], [])
  | fuel + 1, s =>
    let raw := s.takeWhile (· ≠ '\n')
    let line := if doc.1 then raw.dropWhile (· == '\t') else raw
    let taken := s.take (raw.length + 1)
    let rest := s.drop (raw.length + 1)
    if line == doc.2 then (taken, rest)
    else
      let (more, rest) := skipDocument doc fuel rest
      (taken ++ more, rest)

/-- The lines of several documents, and what follows. -/
def skipDocuments (docs : List Awaited) (s : List Char) : List Char × List Char :=
  docs.foldl (fun (taken, rest) doc =>
    let (more, rest) := skipDocument doc (rest.length + 1) rest
    (taken ++ more, rest)) ([], s)

/-! ## Enclosed text -/

/-- A nest that is open, and the text from its mark on. -/
abbrev Open := Nest × List Char

/-- The text up to the mark that closes the outermost of the nests that are
    open, and what follows it; else the innermost nest that is still open at
    the end. `acc` is what was read so far, backwards. -/
def enclosed (docs : List Awaited) :
    Nat → List Open → List Char → List Char → Except Open (List Char × List Char)
  | _, [], acc, s => .ok ((acc.drop 1).reverse, s)
  | 0, top :: _, _, _ => .error top
  | _, top :: _, _, [] => .error top
  | fuel + 1, top :: below, acc, c :: rest =>
    let stack := top :: below
    let nest := top.1
    let go (stack : List Open) (acc rest : List Char) := enclosed docs fuel stack acc rest
    let keep := go stack (c :: acc) rest
    let enter (n : Nest) := go ((n, c :: rest) :: stack) (c :: acc) rest
    let isBack : Bool := nest == .back
    if c == '\\' && nest != .single then
      match rest with
      | e :: rest => go stack (e :: c :: acc) rest
      | [] => .error top
    else if c == nest.mark && nest != .arms then go below (c :: acc) rest
    else if nest == .single || nest == .escaped || isBack then keep
    else if c == '\x60' then enter .back
    else if c == '$' then
      match rest with
      | '(' :: tail => go ((.round, '$' :: rest) :: stack) ('(' :: '$' :: acc) tail
      | '\x7b' :: tail =>
        let bare := nest.isBare || holdsPattern tail
        go ((.curly bare, '$' :: rest) :: stack) ('\x7b' :: '$' :: acc) tail
      | '\'' :: tail =>
        if nest.isBare then go ((.escaped, '$' :: rest) :: stack) ('\'' :: '$' :: acc) tail else keep
      | '#' :: tail => go stack ('#' :: '$' :: acc) tail
      | _ => keep
    else if c == '"' && nest != .double then enter .double
    else if !nest.isBare then keep
    else if c == '\'' then enter .single
    else if c == '[' && nest == .square then enter .square
    else if !nest.hasCommands then keep
    else if c == '(' then enter .round
    else
      let startsWord : Bool := (acc.head?.map isMeta).getD true
      if c == '#' && startsWord then
        let comment := rest.takeWhile (· ≠ '\n')
        go stack (comment.reverse ++ c :: acc) (rest.drop comment.length)
      else if c == '\n' && !docs.isEmpty then
        let (taken, rest) := skipDocuments docs rest
        enclosed [] fuel stack (taken.reverse ++ c :: acc) rest
      else if c == '<' && rest.head? == some '<' then
        match rest with
        | _ :: '<' :: tail => go stack ('<' :: '<' :: c :: acc) tail
        | _ :: tail =>
          if namesDocument tail then
            let (doc, taken, tail) := awaited tail
            enclosed (docs ++ [doc]) fuel stack (taken.reverse ++ '<' :: c :: acc) tail
          else go stack ('<' :: c :: acc) tail
        | [] => keep
      else if c == 'c' && startsWord && hasWord "case" (c :: rest) && endsCommand acc then
        go ((.arms, c :: rest) :: stack) ("esac".toList ++ acc) (rest.drop 3)
      else if c == 'e' && nest == .arms && startsWord && hasWord "esac" (c :: rest) &&
          endsCommand acc then
        go below ("case".toList ++ acc) (rest.drop 3)
      else keep

/-- The text up to the mark that closes a nest that was just opened. -/
def upTo (nest : Nest) (s : List Char) : Except Open (List Char × List Char) :=
  enclosed [] (s.length + 1) [(nest, s)] [] s

/-- The text up to the mark that closes a nest that was just opened. -/
def upTo? (nest : Nest) (s : List Char) : Option (List Char × List Char) :=
  (upTo nest s).toOption

end CompilerRemarks.Shell
