/-
  CompilerRemarks.Shell.Quote

  Texts with quotes around what a shell would not read as it stands: so that
  they can be read back, and for names in complaints.
-/
import CompilerRemarks.Shell.Escape

namespace CompilerRemarks.Shell

/-! ## Characters -/

/-- Whether a character is printed as it is. -/
def isPrintable (c : Char) : Bool :=
  32 ≤ c.toNat && c.toNat ≤ 126

/-- Characters that mean something to a shell wherever they stand. -/
def isShellSign (c : Char) : Bool :=
  " \t\n'\"\\|&;()<>!\x7b\x7d*[]?^$".toList.contains c || c == '\x60'

/-- Whether a text means something to a shell that it should not. `before` is
    the character in front, if any. -/
def hasShellSigns : Option Char → List Char → Bool
  | _, [] => false
  | before, c :: rest =>
    isShellSign c || (c == '#' && before.isNone) ||
      (c == '~' && (before.isNone || before == some '=' || before == some ':')) ||
      hasShellSigns (some c) rest

/-- Three octal digits. -/
def octalDigits (n : Nat) : List Char :=
  let digits := Nat.toDigits 8 n
  List.replicate (3 - digits.length) '0' ++ digits

/-! ## Styles -/

/-- A text in single quotes; a lone quote is escaped. -/
def singleQuoted (s : List Char) : List Char :=
  if s == ['\''] then ['\\', '\'']
  else '\'' :: (s.flatMap fun c => if c == '\'' then "'\\''".toList else [c]) ++ ['\'']

/-- How a character stands in quotes with a dollar sign. -/
def dollarChar (c : Char) : List Char :=
  match c.toNat with
  | 27 => ['\\', 'E']
  | 7 => ['\\', 'a']
  | 11 => ['\\', 'v']
  | 8 => ['\\', 'b']
  | 12 => ['\\', 'f']
  | 10 => ['\\', 'n']
  | 13 => ['\\', 'r']
  | 9 => ['\\', 't']
  | 92 => ['\\', '\\']
  | 39 => ['\\', '\'']
  | n => if isPrintable c then [c] else '\\' :: octalDigits n

/-- A text in quotes with a dollar sign. -/
def dollarQuoted (s : List Char) : List Char :=
  '$' :: '\'' :: s.flatMap dollarChar ++ ['\'']

/-- A text in quotes that can be read back. -/
def reusable (s : List Char) : List Char :=
  if s.any (!isPrintable ·) then dollarQuoted s
  else if s.isEmpty then ['\'', '\'']
  else singleQuoted s

/-- A text as a trace shows it. -/
def traced (s : List Char) : List Char :=
  if s.isEmpty then ['\'', '\'']
  else if hasShellSigns none s then singleQuoted s
  else if s.any (!isPrintable ·) then dollarQuoted s
  else s

/-- A text with backslashes before what means something; `before` is the
    character in front, if any. -/
def escapedFrom : Option Char → List Char → List Char
  | _, [] => []
  | before, c :: rest =>
    let tilde : Bool := c == '~' && (before.isNone || before == some '=' || before == some ':')
    let sign : Bool := isShellSign c || c == ',' || (c == '#' && before.isNone) || tilde
    (if sign then ['\\', c] else [c]) ++ escapedFrom (some c) rest

/-- A text with backslashes, or in quotes where those do not do. -/
def escaped (s : List Char) : List Char :=
  if s.isEmpty then ['\'', '\'']
  else if s.any (!isPrintable ·) then dollarQuoted s
  else escapedFrom none s

/-- A text in double quotes. -/
def doubleQuoted (s : List Char) : List Char :=
  '"' :: (s.flatMap fun c =>
    if c == '"' || c == '\\' || c == '$' || c == '\x60' then ['\\', c] else [c]) ++ ['"']

/-- A value as a declaration shows it. -/
def declaredText (s : List Char) : List Char :=
  if s.any (!isPrintable ·) then dollarQuoted s else doubleQuoted s

/-! ## Names in complaints of programs -/

/-- How a character that cannot be printed stands in the quotes of a name. -/
def nameChar (c : Char) : List Char :=
  match c.toNat with
  | 7 => ['\\', 'a']
  | 8 => ['\\', 'b']
  | 9 => ['\\', 't']
  | 10 => ['\\', 'n']
  | 11 => ['\\', 'v']
  | 12 => ['\\', 'f']
  | 13 => ['\\', 'r']
  | n => '\\' :: octalDigits n

/-- The inside of a name in single quotes; `raw` tells whether the quotes are
    those with a dollar sign. -/
def nameBody : Bool → List Char → List Char
  | _, [] => []
  | raw, c :: rest =>
    if c == '\'' then "'\\''".toList ++ nameBody false rest
    else if !isPrintable c then
      (if raw then [] else "'$'".toList) ++ nameChar c ++ nameBody true rest
    else (if raw then "''".toList else []) ++ c :: nameBody false rest

/-- A name in a complaint, always in quotes. -/
def quotedName (s : List Char) : List Char :=
  if s.contains '\'' && s.all fun c => isPrintable c && !"\"$\\!".toList.contains c && c != '\x60' then
    '"' :: s ++ ['"']
  else '\'' :: nameBody false s ++ ['\'']

/-- Characters that a name is quoted for wherever they stand. -/
def needsQuotes (c : Char) : Bool :=
  " !\"$&'()*:;<=>?[\\^|".toList.contains c || c == '\x60' || !isPrintable c

/-- A name in a complaint, in quotes only where a shell would need them. -/
def nameText (s : List Char) : List Char :=
  let special := s.isEmpty || s.any needsQuotes || s.head? == some '#' || s.head? == some '~' ||
    s == ['\x7b'] || s == ['\x7d']
  if special then quotedName s else s

/-- A value in a complaint, in plain quotes. -/
def quotedValue (s : List Char) : List Char :=
  '\'' :: (s.flatMap fun c =>
    if c == '\'' || c == '\\' then ['\\', c] else if isPrintable c then [c] else nameChar c) ++ ['\'']

end CompilerRemarks.Shell
