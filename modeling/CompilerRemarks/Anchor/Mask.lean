/-
  CompilerRemarks.Anchor.Mask

  Blanking what is not code. The bytes of comments and of the insides of
  string and character literals become blanks; line feeds stay, so offsets
  and line numbers do not change.
-/
import CompilerRemarks.Text.Utf8

namespace CompilerRemarks.Anchor

/-- What the next byte of a source belongs to. -/
inductive Region where
  | code
  | lineComment
  | blockComment
  /-- A literal that this quote closes. -/
  | literal (quote : UInt8)
  deriving DecidableEq, Repr

/-- Whether a byte opens a literal. -/
def isQuote (b : UInt8) : Bool :=
  b == 0x22 || b == 0x27

/-- Blanks a source from a region on. -/
def maskFrom : Region → List UInt8 → List UInt8
  | _, [] => []
  | .code, [b] => [b]
  | .code, a :: b :: rest =>
    if a == 0x2F && b == 0x2F then 0x20 :: 0x20 :: maskFrom .lineComment rest
    else if a == 0x2F && b == 0x2A then 0x20 :: 0x20 :: maskFrom .blockComment rest
    else a :: maskFrom (if isQuote a then .literal a else .code) (b :: rest)
  | .lineComment, b :: rest =>
    if b == 0x0A then 0x0A :: maskFrom .code rest else 0x20 :: maskFrom .lineComment rest
  | .blockComment, [b] => [if b == 0x0A then 0x0A else 0x20]
  | .blockComment, a :: b :: rest =>
    if a == 0x2A && b == 0x2F then 0x20 :: 0x20 :: maskFrom .code rest
    else (if a == 0x0A then 0x0A else 0x20) :: maskFrom .blockComment (b :: rest)
  | .literal q, [b] => [if b == q || b == 0x0A then b else 0x20]
  | .literal q, a :: b :: rest =>
    if a == 0x5C && b != 0x0A then 0x20 :: 0x20 :: maskFrom (.literal q) rest
    else if a == q || a == 0x0A then a :: maskFrom .code (b :: rest)
    else 0x20 :: maskFrom (.literal q) (b :: rest)

/-- A source with its comments and literals blanked. -/
def mask (source : List UInt8) : List UInt8 :=
  maskFrom .code source

/-- The text of a source with its comments and literals blanked. -/
def maskText (source : List UInt8) : List Char :=
  Text.Utf8.decodeLossy (mask source)

end CompilerRemarks.Anchor
