/-
  CompilerRemarks.Json.Reader

  Reading a JSON text. A text holds one value; arrays and objects nest at
  most 127 deep, and a number must lie in the range of doubles.
-/
import CompilerRemarks.Json.Basic
import CompilerRemarks.Text.Utf8

namespace CompilerRemarks.Json

/-! ## Strings -/

/-- Skips the white space of JSON. -/
def skipSpace : List Char → List Char
  | c :: rest =>
    if c == ' ' || c == '\n' || c == '\t' || c == '\r' then skipSpace rest else c :: rest
  | [] => []

/-- The value of four hexadecimal digits. -/
def hex4? (a b c d : Char) : Option Nat :=
  Text.digits? 16 [a, b, c, d]

/-- The character of a simple escape. -/
def escape? (c : Char) : Option Char :=
  if c == '"' then some '"'
  else if c == '\\' then some '\\'
  else if c == '/' then some '/'
  else if c == 'b' then some '\x08'
  else if c == 'f' then some '\x0c'
  else if c == 'n' then some '\n'
  else if c == 'r' then some '\r'
  else if c == 't' then some '\t'
  else none

/-- The character of a surrogate pair. -/
def pair? (hi lo : Nat) : Option Char :=
  if 0xD800 ≤ hi && hi ≤ 0xDBFF && 0xDC00 ≤ lo && lo ≤ 0xDFFF then
    some (Char.ofNat (0x10000 + (hi - 0xD800) * 0x400 + (lo - 0xDC00)))
  else none

/-- Reads a string up to its closing quote; `acc` is what was read, reversed. -/
def stringBody? : List Char → List Char → Option (List Char × List Char)
  | acc, '"' :: rest => some (acc.reverse, rest)
  | acc, '\\' :: 'u' :: a :: b :: c :: d :: rest =>
    match hex4? a b c d with
    | none => none
    | some n =>
      if 0xD800 ≤ n && n ≤ 0xDBFF then
        match rest with
        | '\\' :: 'u' :: e :: f :: g :: h :: rest =>
          match (hex4? e f g h).bind (pair? n) with
          | none => none
          | some x => stringBody? (x :: acc) rest
        | _ => none
      else if 0xDC00 ≤ n && n ≤ 0xDFFF then none
      else stringBody? (Char.ofNat n :: acc) rest
  | acc, '\\' :: c :: rest =>
    match escape? c with
    | none => none
    | some x => stringBody? (x :: acc) rest
  | acc, c :: rest =>
    if c.toNat < 0x20 || c == '\\' then none else stringBody? (c :: acc) rest
  | _, [] => none

/-! ## Numbers -/

/-- Splits off the leading digits. -/
def spanDigits (s : List Char) : List Char × List Char :=
  s.span fun c => '0' ≤ c && c ≤ '9'

/-- Reads an optional fraction: its digits and the rest. -/
def fraction? : List Char → Option (List Char × List Char)
  | '.' :: rest =>
    let (digits, rest) := spanDigits rest
    if digits.isEmpty then none else some (digits, rest)
  | s => some ([], s)

/-- Reads an optional exponent: its value, if there is one, and the rest. -/
def exponent? : List Char → Option (Option Int × List Char)
  | [] => some (none, [])
  | e :: rest =>
    if e == 'e' || e == 'E' then
      let (negative, rest) := match rest with
        | '+' :: r => (false, r)
        | '-' :: r => (true, r)
        | r => (false, r)
      let (digits, rest) := spanDigits rest
      (Text.digits? 10 digits).map fun n =>
        (some (if negative then -(Int.ofNat n) else Int.ofNat n), rest)
    else some (none, e :: rest)

/-- Whether another digit still leaves a value of 64 bits. -/
def hasRoom (value digit : Nat) : Bool :=
  value * 10 + digit < Nat.pow 2 64

/-- Reads the digits before the point as far as 64 bits reach, and counts
    those after them. -/
def leadingWhole (value : Nat) : List Char → Nat × Nat
  | [] => (value, 0)
  | c :: rest =>
    let digit := c.toNat - 48
    if hasRoom value digit then leadingWhole (value * 10 + digit) rest
    else (value, rest.length + 1)

/-- Reads the digits after the point as far as 64 bits reach, and counts them. -/
def leadingFraction (value count : Nat) : List Char → Nat × Nat
  | [] => (value, count)
  | c :: rest =>
    let digit := c.toNat - 48
    if hasRoom value digit then leadingFraction (value * 10 + digit) (count + 1) rest
    else (value, count)

/-- Whether `value · 10^power` is finite when both factors and the product are
    rounded to doubles, one after the other. -/
def hasDouble (value power : Nat) : Bool :=
  match Decimal.nearest false value 1, Decimal.nearest false (Nat.pow 10 power) 1 with
  | .finite _ m q, .finite _ n r =>
    let (num, den) := Decimal.scaleBinary (m * n) 1 (-(q + r))
    (Decimal.nearest false num den).isFinite
  | _, _ => false

/-- The greatest power of ten in the range of doubles. -/
def greatestPower : Int := 308

/-- Whether a numeral lies in the range of doubles, judged by its leading
    digits. Because each factor is rounded, some numerals right below the
    greatest double are out of range. -/
def inRange (whole fraction : List Char) (exponent : Int) : Bool :=
  let (value, dropped) := leadingWhole 0 whole
  let (value, count) := leadingFraction value 0 fraction
  let power := exponent + Int.ofNat dropped - Int.ofNat count
  value == 0 || power < 0 || (power ≤ greatestPower && hasDouble value power.toNat)

/-- The number of a numeral, if it lies in the range of doubles. -/
def classify? (negative : Bool) (whole fraction : List Char) (exponent : Option Int) :
    Option Number :=
  let digits := (Text.digits? 10 (whole ++ fraction)).getD 0
  let isInteger := fraction.isEmpty && exponent.isNone
  if isInteger && !negative && digits < Nat.pow 2 64 then some (.natural digits)
  else if isInteger && negative && 0 < digits && digits ≤ Nat.pow 2 63 then some (.negated digits)
  else if inRange whole fraction (exponent.getD 0) then
    some (.decimal ⟨negative, digits, exponent.getD 0 - Int.ofNat fraction.length⟩)
  else none

/-- Reads a numeral: no leading zero, no bare point, no plus sign. -/
def number? (s : List Char) : Option (Number × List Char) :=
  let (negative, s) := match s with
    | '-' :: rest => (true, rest)
    | _ => (false, s)
  let (whole, rest) := spanDigits s
  if whole.isEmpty || (whole.head? == some '0' && whole.length > 1) then none
  else
    match fraction? rest with
    | none => none
    | some (fraction, rest) =>
      match exponent? rest with
      | none => none
      | some (exponent, rest) =>
        (classify? negative whole fraction exponent).map (·, rest)

/-! ## Values -/

/-- The rest of the text after a fixed word. -/
def dropWord? : List Char → List Char → Option (List Char)
  | [], rest => some rest
  | w :: word, c :: rest => if w == c then dropWord? word rest else none
  | _ :: _, [] => none

mutual

/-- Reads a value; `depth` more levels of nesting are allowed. -/
def value? : Nat → Nat → List Char → Option (Json × List Char)
  | 0, _, _ => none
  | fuel + 1, depth, s =>
    match skipSpace s with
    | [] => none
    | '"' :: rest => (stringBody? [] rest).map fun (t, rest) => (.string (String.ofList t), rest)
    | '[' :: rest =>
      match depth with
      | 0 => none
      | depth + 1 =>
        match skipSpace rest with
        | ']' :: rest => some (.array [], rest)
        | rest => (items? fuel depth rest).map fun (items, rest) => (.array items, rest)
    | '\x7b' :: rest =>
      match depth with
      | 0 => none
      | depth + 1 =>
        match skipSpace rest with
        | '\x7d' :: rest => some (.object [], rest)
        | rest => (members? fuel depth rest).map fun (members, rest) => (.object members, rest)
    | 't' :: rest => (dropWord? ['r', 'u', 'e'] rest).map (.bool true, ·)
    | 'f' :: rest => (dropWord? ['a', 'l', 's', 'e'] rest).map (.bool false, ·)
    | 'n' :: rest => (dropWord? ['u', 'l', 'l'] rest).map (.null, ·)
    | rest => (number? rest).map fun (n, rest) => (.number n, rest)

/-- Reads the items of an array up to its closing bracket. -/
def items? : Nat → Nat → List Char → Option (List Json × List Char)
  | 0, _, _ => none
  | fuel + 1, depth, s =>
    match value? fuel depth s with
    | none => none
    | some (item, rest) =>
      match skipSpace rest with
      | ']' :: rest => some ([item], rest)
      | ',' :: rest => (items? fuel depth rest).map fun (items, rest) => (item :: items, rest)
      | _ => none

/-- Reads the members of an object up to its closing brace. -/
def members? : Nat → Nat → List Char → Option (List (String × Json) × List Char)
  | 0, _, _ => none
  | fuel + 1, depth, s =>
    match skipSpace s with
    | '"' :: rest =>
      match stringBody? [] rest with
      | none => none
      | some (name, rest) =>
        match skipSpace rest with
        | ':' :: rest =>
          match value? fuel depth rest with
          | none => none
          | some (value, rest) =>
            let member := (String.ofList name, value)
            match skipSpace rest with
            | '\x7d' :: rest => some ([member], rest)
            | ',' :: rest =>
              (members? fuel depth rest).map fun (members, rest) => (member :: members, rest)
            | _ => none
        | _ => none
    | _ => none

end

/-- How deep arrays and objects may nest. -/
def maxDepth : Nat := 127

/-- The value of a JSON text. -/
def ofChars? (s : List Char) : Option Json :=
  match value? (2 * s.length + 2) maxDepth s with
  | some (j, rest) => if (skipSpace rest).isEmpty then some j else none
  | none => none

/-- The value of a JSON text given as UTF-8 bytes. -/
def ofBytes? (bytes : List UInt8) : Option Json :=
  (Text.Utf8.decode? bytes).bind ofChars?

end CompilerRemarks.Json
