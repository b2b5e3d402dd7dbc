/-
  CompilerRemarks.Anchor.Scan

  Finding functions and loops by the look of the text. Comments and literals
  are blanked first; then loop keywords and what looks like the head of a
  function are found, and their extents by matching brackets.
-/
import CompilerRemarks.Anchor.Basic
import CompilerRemarks.Anchor.Mask
import CompilerRemarks.Anchor.Layout
import CompilerRemarks.Text.Utf8
import CompilerRemarks.Text.Word

namespace CompilerRemarks.Anchor

open Text (isBlank isWord isAsciiLetter)

/-! ## Loop heads -/

/-- The head of a loop: where it starts, the offset of its opening bracket,
    and what stands before it. -/
structure LoopHead where
  start : Nat
  bracket : Nat
  isDo : Bool
  afterBrace : Bool
  deriving Repr

/-- A keyword, blanks and a bracket at the head of a text: the characters
    before the bracket. -/
def keyword? (word : List Char) (bracket : Char) (s : List Char) : Option (List Char) :=
  if word.isPrefixOf s then
    let rest := s.drop word.length
    let blanks := rest.takeWhile isBlank
    if (rest.drop blanks.length).head? == some bracket then some (word ++ blanks) else none
  else none

/-- The head of a loop at the start of a text: the characters before its
    bracket, and whether it is a `do` loop. -/
def loopAt? (s : List Char) : Option (List Char × Bool) :=
  match keyword? "for".toList '(' s with
  | some t => some (t, false)
  | none =>
    match keyword? "while".toList '(' s with
    | some t => some (t, false)
    | none => (keyword? "do".toList '\x7b' s).map (·, true)

/-- Whether the last character that is no blank is a closing brace; the text
    is given in reverse. -/
def endsInBrace (reversed : List Char) : Bool :=
  (reversed.dropWhile isBlank).head? == some '\x7d'

/-- The loop heads of a text. `before` is what stands before it, reversed,
    `offset` the bytes of that, and `skip` characters belong to a head
    already found. A keyword does not start inside a word. -/
def loopHeads : Nat → List Char → Nat → List Char → List LoopHead
  | _, _, _, [] => []
  | skip + 1, before, offset, c :: rest =>
    loopHeads skip (c :: before) (offset + (Text.Utf8.encodeChar c).length) rest
  | 0, before, offset, c :: rest =>
    let next := offset + (Text.Utf8.encodeChar c).length
    let inWord := (before.head?.map isWord).getD false
    match if inWord then none else loopAt? (c :: rest) with
    | some (head, isDo) =>
      ⟨offset, offset + Text.Utf8.size head, isDo, endsInBrace before⟩ ::
        loopHeads head.length (c :: before) next rest
    | none => loopHeads 0 (c :: before) next rest

/-! ## Function heads -/

/-- The head of a function: where it starts, its name, and the offset of the
    bracket that opens its parameters. -/
structure FunctionHead where
  start : Nat
  name : List Char
  bracket : Nat
  deriving Repr

/-- Blanks inside a line. -/
def isGap (c : Char) : Bool :=
  c == ' ' || c == '\t'

/-- What may start a type. -/
def startsType (c : Char) : Bool :=
  isAsciiLetter c || c == '_'

/-- What a type may hold. -/
def isTypeChar (c : Char) : Bool :=
  isWord c || c == ':' || c == '<' || c == '>' || c == ',' || c == '*' || c == '&' ||
    c == '~' || isGap c

/-- What may end a type, right before a name. -/
def endsType (c : Char) : Bool :=
  isBlank c || c == '*' || c == '&'

/-- What may start a function's name. -/
def startsName (c : Char) : Bool :=
  isAsciiLetter c || c == '_' || c == '~'

/-- What a function's name may hold. -/
def isNameChar (c : Char) : Bool :=
  isWord c || c == ':' || c == '~'

/-- A name, blanks and an opening bracket at the start of a text: the name,
    and the characters before the bracket. -/
def call? (s : List Char) : Option (List Char × List Char) :=
  match s with
  | [] => none
  | c :: rest =>
    if startsName c then
      let name := c :: rest.takeWhile isNameChar
      let tail := s.drop name.length
      let gap := tail.takeWhile isGap
      if (tail.drop gap.length).head? == some '(' then some (name, name ++ gap) else none
    else none

/-- A type and a call at the start of a text. Of the places where the type
    may end, at most `k` characters in, the last one counts. -/
def typedCall? (s : List Char) : Nat → Option (List Char × List Char)
  | 0 => none
  | k + 1 =>
    let ends := ((s.drop (k + 1)).head?.map endsType).getD false
    match if ends then call? (s.drop (k + 2)) else none with
    | some (name, head) => some (name, s.take (k + 2) ++ head)
    | none => typedCall? s k

/-- The head of a function at the start of a line: its name, the blanks before
    it, and the characters from there to the bracket. -/
def functionAt? (line : List Char) : Option (List Char × List Char × List Char) :=
  let gap := line.takeWhile isGap
  let s := line.drop gap.length
  let typed := match s with
    | c :: rest =>
      if startsType c then typedCall? s (1 + (rest.takeWhile isTypeChar).length) else none
    | [] => none
  (typed.orElse fun _ => call? s).map fun (name, head) => (name, gap, head)

/-- The function heads of a text, which start at the start of a line. -/
def functionHeads : Nat → Bool → Nat → List Char → List FunctionHead
  | _, _, _, [] => []
  | skip + 1, _, offset, c :: rest =>
    functionHeads skip (c == '\n') (offset + (Text.Utf8.encodeChar c).length) rest
  | 0, lineStart, offset, c :: rest =>
    let next := offset + (Text.Utf8.encodeChar c).length
    match if lineStart then functionAt? (c :: rest) else none with
    | some (name, gap, head) =>
      let start := offset + gap.length
      ⟨start, name, start + Text.Utf8.size head⟩ ::
        functionHeads (gap.length + head.length) (c == '\n') next rest
    | none => functionHeads 0 (c == '\n') next rest

/-! ## Extents -/

/-- The offset at which a loop ends: the brace that closes its body, or else
    the semicolon that ends its statement. The condition of a `do` loop is
    no loop of its own. -/
def loopEnd? (bytes : List UInt8) (head : LoopHead) : Option Nat :=
  if head.isDo then matching? bytes head.bracket 0x7B 0x7D
  else
    match matching? bytes head.bracket 0x28 0x29 with
    | none => none
    | some close =>
      match nextCode? bytes (close + 1) with
      | none => none
      | some (at', b) =>
        if b == 0x3B && head.afterBrace then none
        else if b == 0x7B then matching? bytes at' 0x7B 0x7D
        else (findByte? bytes at' (· == 0x3B)).map (·.1)

/-- What may stand between the parameters and the body of a function. -/
def qualifiers : List (List Char) :=
  ["const", "noexcept", "override", "final", "volatile"].map String.toList

/-- The text at a function's opening brace, after any qualifiers. -/
def skipQualifiers : Nat → List Char → Option (List Char)
  | 0, _ => none
  | fuel + 1, s =>
    if s.head? == some '\x7b' then some s
    else
      match qualifiers.find? (·.isPrefixOf s) with
      | some word => skipQualifiers fuel (Text.trimStart (s.drop word.length))
      | none => none

/-- The offset of the brace that opens a function's body after an offset. -/
def bodyStart? (bytes : List UInt8) (start : Nat) : Option Nat :=
  let rest := Text.trimStart (Text.Utf8.decodeLossy (bytes.drop start))
  (skipQualifiers (rest.length + 1) rest).map fun s => bytes.length - Text.Utf8.size s

/-- The offset of the brace that closes a function's body. -/
def functionEnd? (bytes : List UInt8) (head : FunctionHead) : Option Nat :=
  match matching? bytes head.bracket 0x28 0x29 with
  | none => none
  | some close =>
    (bodyStart? bytes (close + 1)).bind fun body => matching? bytes body 0x7B 0x7D

/-- Words that look like calls and are none. -/
def notFunctions : List (List Char) :=
  ["if", "for", "while", "switch", "return", "sizeof", "catch", "do", "else", "case"].map
    String.toList

/-! ## Anchors -/

/-- The anchors of a source text. -/
def ofSource (source : List UInt8) : List Anchor :=
  let code := maskText source
  let bytes := Text.Utf8.encode code
  let starts := lineStarts bytes
  let loops := (loopHeads 0 [] 0 code).filterMap fun head =>
    (loopEnd? bytes head).map fun last => ⟨.loop, none, rangeOf starts head.start last⟩
  let functions := (functionHeads 0 true 0 code).filterMap fun head =>
    if notFunctions.contains head.name then none
    else (functionEnd? bytes head).map fun last =>
      ⟨.function, some (String.ofList head.name), rangeOf starts head.start last⟩
  sorted (loops ++ functions)

end CompilerRemarks.Anchor
