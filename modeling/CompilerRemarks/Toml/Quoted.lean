/-
  CompilerRemarks.Toml.Quoted

  The four kinds of quoted text: basic and literal, on one line or several.
  Each reader starts after the opening quotes and returns the text and what
  follows the closing ones.
-/
import CompilerRemarks.Text.Numeral

namespace CompilerRemarks.Toml

/-! ## Characters -/

/-- Control characters that no quoted text or comment may hold. -/
def isForbidden (c : Char) : Bool :=
  (c.toNat < 0x20 && c != '\t') || c.toNat == 0x7F

/-- Space and tab. -/
def isSpace (c : Char) : Bool :=
  c == ' ' || c == '\t'

/-- The character of a one-letter escape. -/
def escape? (c : Char) : Option Char :=
  if c == 'b' then some '\x08'
  else if c == 't' then some '\t'
  else if c == 'n' then some '\n'
  else if c == 'f' then some '\x0c'
  else if c == 'r' then some '\r'
  else if c == 'e' then some '\x1b'
  else if c == '"' then some '"'
  else if c == '\\' then some '\\'
  else none

/-- The character of a number that is one. -/
def scalar? (n : Nat) : Option Char :=
  if n.isValidChar then some (Char.ofNat n) else none

/-- The character with this hexadecimal code. -/
def coded? (digits : List Char) : Option Char :=
  (Text.digits? 16 digits).bind scalar?

/-! ## One line -/

/-- Reads literal text up to its quote; `acc` is what was read, reversed. -/
def literal? : List Char → List Char → Option (List Char × List Char)
  | _, [] => none
  | acc, c :: rest =>
    if c == '\'' then some (acc.reverse, rest)
    else if isForbidden c then none
    else literal? (c :: acc) rest

/-- Reads basic text up to its quote; `acc` is what was read, reversed. -/
def basic? : List Char → List Char → Option (List Char × List Char)
  | acc, '"' :: rest => some (acc.reverse, rest)
  | acc, '\\' :: 'x' :: a :: b :: rest =>
    match coded? [a, b] with
    | some c => basic? (c :: acc) rest
    | none => none
  | acc, '\\' :: 'u' :: a :: b :: c :: d :: rest =>
    match coded? [a, b, c, d] with
    | some c => basic? (c :: acc) rest
    | none => none
  | acc, '\\' :: 'U' :: a :: b :: c :: d :: e :: f :: g :: h :: rest =>
    match coded? [a, b, c, d, e, f, g, h] with
    | some c => basic? (c :: acc) rest
    | none => none
  | acc, '\\' :: c :: rest =>
    match escape? c with
    | some c => basic? (c :: acc) rest
    | none => none
  | acc, c :: rest => if isForbidden c || c == '\\' then none else basic? (c :: acc) rest
  | _, [] => none

/-! ## Several lines -/

/-- The text without a line break at its start. -/
def dropBreak : List Char → List Char
  | '\n' :: rest => rest
  | '\r' :: '\n' :: rest => rest
  | s => s

/-- Whether only spaces stand before the next line break. -/
def endsLine (s : List Char) : Bool :=
  match s.dropWhile isSpace with
  | '\n' :: _ => true
  | '\r' :: '\n' :: _ => true
  | _ => false

/-- Reads literal text up to three quotes; up to two more belong to it. -/
def literalLines? : List Char → List Char → Option (List Char × List Char)
  | acc, '\'' :: '\'' :: '\'' :: '\'' :: '\'' :: rest => some (('\'' :: '\'' :: acc).reverse, rest)
  | acc, '\'' :: '\'' :: '\'' :: '\'' :: rest => some (('\'' :: acc).reverse, rest)
  | acc, '\'' :: '\'' :: '\'' :: rest => some (acc.reverse, rest)
  | acc, '\r' :: '\n' :: rest => literalLines? ('\n' :: '\r' :: acc) rest
  | acc, c :: rest =>
    if isForbidden c && c != '\n' then none else literalLines? (c :: acc) rest
  | _, [] => none

/-- Reads basic text up to three quotes; up to two more belong to it. A
    backslash at the end of a line drops the white space that follows, which
    `skipping` tells. -/
def basicLines? : Bool → List Char → List Char → Option (List Char × List Char)
  | _, acc, '"' :: '"' :: '"' :: '"' :: '"' :: rest => some (('"' :: '"' :: acc).reverse, rest)
  | _, acc, '"' :: '"' :: '"' :: '"' :: rest => some (('"' :: acc).reverse, rest)
  | _, acc, '"' :: '"' :: '"' :: rest => some (acc.reverse, rest)
  | skipping, acc, '\r' :: '\n' :: rest =>
    basicLines? skipping (if skipping then acc else '\n' :: '\r' :: acc) rest
  | skipping, acc, '\n' :: rest =>
    basicLines? skipping (if skipping then acc else '\n' :: acc) rest
  | _, acc, '\\' :: 'x' :: a :: b :: rest =>
    match coded? [a, b] with
    | some c => basicLines? false (c :: acc) rest
    | none => none
  | _, acc, '\\' :: 'u' :: a :: b :: c :: d :: rest =>
    match coded? [a, b, c, d] with
    | some c => basicLines? false (c :: acc) rest
    | none => none
  | _, acc, '\\' :: 'U' :: a :: b :: c :: d :: e :: f :: g :: h :: rest =>
    match coded? [a, b, c, d, e, f, g, h] with
    | some c => basicLines? false (c :: acc) rest
    | none => none
  | _, acc, '\\' :: c :: rest =>
    match escape? c with
    | some c => basicLines? false (c :: acc) rest
    | none => if endsLine (c :: rest) then basicLines? true acc (c :: rest) else none
  | skipping, acc, c :: rest =>
    if isForbidden c || c == '\\' then none
    else if skipping && isSpace c then basicLines? true acc rest
    else basicLines? false (c :: acc) rest
  | _, _, [] => none

/-! ## Any kind -/

/-- Reads a value in quotes of any kind, from its first quote. -/
def quoted? : List Char → Option (List Char × List Char)
  | '"' :: '"' :: '"' :: rest => basicLines? false [] (dropBreak rest)
  | '\'' :: '\'' :: '\'' :: rest => literalLines? [] (dropBreak rest)
  | '"' :: rest => basic? [] rest
  | '\'' :: rest => literal? [] rest
  | _ => none

end CompilerRemarks.Toml
