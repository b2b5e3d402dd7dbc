/-
  CompilerRemarks.Shell.Escape

  The texts of scripts and their bytes, and backslash escapes in texts that
  are printed and in quotes with a dollar sign.
-/
import CompilerRemarks.Shell.Script
import CompilerRemarks.Text.Numeral
import CompilerRemarks.Text.Utf8

namespace CompilerRemarks.Shell

/-! ## Bytes -/

/-- The bytes of a text. A shell knows no characters but bytes, so each
    character of its texts is below 256. -/
def bytesOf (s : List Char) : List UInt8 :=
  s.map fun c => c.toNat.toUInt8

/-- The text of some bytes. -/
def textOf (bytes : List UInt8) : List Char :=
  bytes.map fun b => Char.ofNat b.toNat

/-- A text from outside as a shell sees it. -/
def inward (s : List Char) : List Char :=
  textOf (Text.Utf8.encode s)

/-- A text of a shell as it is seen from outside. -/
def outward (s : List Char) : List Char :=
  Text.Utf8.decodeLossy (bytesOf s)

/-! ## Escapes -/

/-- The value of up to `most` digits of a radix, and the rest. -/
def takeNumber (radix most : Nat) (s : List Char) : Option (Nat × List Char) :=
  let isDigit := fun (c : Char) => match Text.digitValue? c with
    | some d => d < radix
    | none => false
  let digits := (s.take most).takeWhile isDigit
  (Text.digits? radix digits).map (·, s.drop digits.length)

/-- The character of a simple escape. -/
def simpleEscape? (c : Char) : Option Nat :=
  if c == 'a' then some 7
  else if c == 'b' then some 8
  else if c == 't' then some 9
  else if c == 'n' then some 10
  else if c == 'v' then some 11
  else if c == 'f' then some 12
  else if c == 'r' then some 13
  else if c == '\\' then some 92
  else none

/-- A character by number that is no single byte, as it is written. -/
def unicodeText (n : Nat) : List Char :=
  let digits := (Nat.toDigits 16 n).map Char.toUpper
  let width := if n < 0x10000 then 4 else 8
  '\\' :: (if n < 0x10000 then 'u' else 'U') :: List.replicate (width - digits.length) '0' ++ digits

/-- Where a text with escapes stands. -/
inductive EscapeStyle where
  /-- Printed as it is: octal numbers start with a zero. -/
  | printed
  /-- An argument of a print that is printed as it is. -/
  | argument
  /-- The format of a print. -/
  | format
  /-- In quotes with a dollar sign. -/
  | quoted
  deriving DecidableEq

/-- The bytes of one escape after its backslash, and the rest; `none` if the
    backslash stands for itself. -/
def escapeAt? (d : Dialect) (style : EscapeStyle) (c : Char) (rest : List Char) :
    Option (List UInt8 × List Char) :=
  let isBash := d == .bash
  let octal (s : List Char) : Option (List UInt8 × List Char) :=
    (takeNumber 8 3 s).map fun (n, rest) => ([n.toUInt8], rest)
  let unicode (most : Nat) : Option (List UInt8 × List Char) :=
    if isBash then
      (takeNumber 16 most rest).map fun (n, rest) =>
        (bytesOf (if n < 128 then [Char.ofNat n] else unicodeText n), rest)
    else none
  match simpleEscape? c with
  | some n => some ([n.toUInt8], rest)
  | none =>
    if c == 'e' || (isBash && c == 'E') then some ([27], rest)
    else if c == '0' && (style == .printed || style == .argument) then
      some ((octal rest).getD ([0], rest))
    else if c == 'x' && isBash then
      (takeNumber 16 2 rest).map fun (n, rest) => ([n.toUInt8], rest)
    else if c == 'u' then unicode 4
    else if c == 'U' then unicode 8
    else if style == .printed && isBash then none
    else if c == '"' || (isBash && (c == '\'' || c == '?') && style != .argument) then
      some (bytesOf [c], rest)
    else if style == .quoted && c == 'c' then
      match rest with
      | k :: rest => some ([(k.toNat % 32).toUInt8], rest)
      | [] => none
    else if c.isDigit then octal (c :: rest)
    else none

/-- The bytes of a text with escapes, and whether it told to stop printing. -/
def unescape (d : Dialect) (style : EscapeStyle) : Nat → List Char → List UInt8 × Bool
  | 0, _ => ([], false)
  | _, [] => ([], false)
  | fuel + 1, '\\' :: c :: rest =>
    if c == 'c' && (style == .printed || style == .argument) then ([], true)
    else
      let (bytes, rest) := (escapeAt? d style c rest).getD (bytesOf ['\\', c], rest)
      let (more, stop) := unescape d style fuel rest
      (bytes ++ more, stop)
  | fuel + 1, c :: rest =>
    let (more, stop) := unescape d style fuel rest
    (bytesOf [c] ++ more, stop)

/-- A text in quotes with a dollar sign up to its quote, and the rest. -/
def escapedQuote? : List Char → List Char → Option (List Char × List Char)
  | _, [] => none
  | acc, '\\' :: c :: rest => escapedQuote? (c :: '\\' :: acc) rest
  | acc, '\'' :: rest => some (acc.reverse, rest)
  | acc, c :: rest => escapedQuote? (c :: acc) rest

end CompilerRemarks.Shell
