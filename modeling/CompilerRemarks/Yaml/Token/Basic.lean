/-
  CompilerRemarks.Yaml.Token.Basic

  The tokens of a YAML stream, the classes of its characters, and the cursor
  that walks over them.
-/
import CompilerRemarks.Text.Utf8
import CompilerRemarks.Text.Numeral

namespace CompilerRemarks.Yaml

/-- A token. The end of all tokens is the end of the stream. -/
inductive Token where
  | version (major minor : Nat)
  | tagShorthand (handle : List Char) (uri : List UInt8)
  | documentStart
  | documentEnd
  | blockSequence
  | blockMapping
  | blockEnd
  | flowSequence
  | flowSequenceEnd
  | flowMapping
  | flowMappingEnd
  | entry
  | separator
  | key
  | value
  | alias (name : List Char)
  | anchor (name : List Char)
  | tag (handle : List Char) (suffix : List UInt8)
  | scalar (text : List Char) (plain : Bool)
  deriving DecidableEq, Repr

/-- What was read of a list: all of it, or what came before the first error. -/
structure Leading (α : Type) where
  items : List α
  isAll : Bool
  deriving Repr

namespace Leading

variable {α : Type}

/-- Nothing but an error. -/
def broken : Leading α := ⟨[], false⟩

/-- Puts an item in front. -/
def cons (x : α) (l : Leading α) : Leading α := ⟨x :: l.items, l.isAll⟩

/-- The whole list, if there was no error. -/
def all? (l : Leading α) : Option (List α) :=
  if l.isAll then some l.items else none

end Leading

/-! ## Characters -/

/-- Characters that a stream may hold. -/
def isAllowed (c : Char) : Bool :=
  let n := c.toNat
  n == 9 || n == 10 || n == 13 || (0x20 ≤ n && n ≤ 0x7E) || n == 0x85 ||
    (0xA0 ≤ n && n ≤ 0xD7FF) || (0xE000 ≤ n && n ≤ 0xFFFD) || 0x10000 ≤ n

/-- Line breaks. -/
def isBreak (c : Char) : Bool :=
  c == '\r' || c == '\n' || c == '\x85' || c == '\u2028' || c == '\u2029'

/-- Blanks inside a line. -/
def isGap (c : Char) : Bool :=
  c == ' ' || c == '\t'

/-- A break or the end of the stream. -/
def atBreak (s : List Char) : Bool :=
  match s with
  | [] => true
  | c :: _ => isBreak c

/-- A blank, a break or the end of the stream. -/
def atGap (s : List Char) : Bool :=
  match s with
  | [] => true
  | c :: _ => isGap c || isBreak c

/-- The characters of anchor names and tag handles. -/
def isNameChar (c : Char) : Bool :=
  ('0' ≤ c && c ≤ '9') || ('A' ≤ c && c ≤ 'Z') || ('a' ≤ c && c ≤ 'z') || c == '_' || c == '-'

/-- The brackets and the comma of flow collections. -/
def isFlowMark (c : Char) : Bool :=
  c == ',' || c == '[' || c == ']' || c == '\x7b' || c == '\x7d'

/-- A document marker, three dashes or three points, alone in its place. -/
def atDocumentMark : List Char → Bool
  | '-' :: '-' :: '-' :: rest => atGap rest
  | '.' :: '.' :: '.' :: rest => atGap rest
  | _ => false

/-! ## The cursor -/

/-- The rest of the stream with the place of its first character. -/
structure Cursor where
  rest : List Char
  /-- The number of bytes before it. -/
  index : Nat
  line : Nat
  column : Nat
  deriving Repr

namespace Cursor

/-- Whether the next character is `c`. -/
def isAt (cur : Cursor) (c : Char) : Bool :=
  cur.rest.head? == some c

/-- Steps over `n` characters of a line. -/
def advance (cur : Cursor) (n : Nat) : Cursor :=
  { cur with
    rest := cur.rest.drop n
    index := cur.index + Text.Utf8.size (cur.rest.take n)
    column := cur.column + n }

/-- The leading characters with a property, and the cursor after them. -/
def take (cur : Cursor) (p : Char → Bool) : List Char × Cursor :=
  let taken := cur.rest.takeWhile p
  (taken, cur.advance taken.length)

/-- Steps over the leading characters with a property. -/
def skipWhile (cur : Cursor) (p : Char → Bool) : Cursor :=
  (cur.take p).2

/-- Reads a line break, if one is next: a carriage return with its line feed
    is one break, and all but the two Unicode separators read as a line feed. -/
def readBreak (cur : Cursor) : List Char × Cursor :=
  let next (broken rest : List Char) : Cursor :=
    ⟨rest, cur.index + Text.Utf8.size broken, cur.line + 1, 0⟩
  match cur.rest with
  | '\r' :: '\n' :: rest => (['\n'], next ['\r', '\n'] rest)
  | c :: rest =>
    if c == '\r' || c == '\n' || c == '\x85' then (['\n'], next [c] rest)
    else if c == '\u2028' || c == '\u2029' then ([c], next [c] rest)
    else ([], cur)
  | [] => ([], cur)

/-- Steps over a comment up to the end of its line. -/
def skipComment (cur : Cursor) : Cursor :=
  if cur.isAt '#' then cur.skipWhile (!isBreak ·) else cur

/-- Steps over blanks and a comment to the end of the line, and over its
    break; `none` if anything else is in the way. -/
def finishLine? (cur : Cursor) : Option Cursor :=
  let cur := (cur.skipWhile isGap).skipComment
  if atBreak cur.rest then some cur.readBreak.2 else none

end Cursor

end CompilerRemarks.Yaml
