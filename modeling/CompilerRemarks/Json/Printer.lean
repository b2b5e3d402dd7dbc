/-
  CompilerRemarks.Json.Printer

  Writing JSON: on one line, or indented by two blanks a level with one item
  or member a line.
-/
import CompilerRemarks.Json.Basic

namespace CompilerRemarks.Json

/-! ## Scalars -/

/-- One character inside a string: quotes, backslashes and controls are escaped. -/
def escapeChar (c : Char) : List Char :=
  if c == '"' then ['\\', '"']
  else if c == '\\' then ['\\', '\\']
  else if c == '\x08' then ['\\', 'b']
  else if c == '\x0c' then ['\\', 'f']
  else if c == '\n' then ['\\', 'n']
  else if c == '\r' then ['\\', 'r']
  else if c == '\t' then ['\\', 't']
  else if c.toNat < 0x20 then
    ['\\', 'u', '0', '0', Text.hexDigit (c.toNat / 16), Text.hexDigit (c.toNat % 16)]
  else [c]

/-- A string in quotes. -/
def stringText (s : String) : List Char :=
  '"' :: s.toList.flatMap escapeChar ++ ['"']

/-- The text of a number. -/
def Number.text : Number → List Char
  | .natural n => Nat.toDigits 10 n
  | .negated n => '-' :: Nat.toDigits 10 n
  | .decimal d =>
    (if d.negative then ['-'] else []) ++ Nat.toDigits 10 d.digits ++
      'e' :: (toString d.exponent).toList

/-! ## One line -/

mutual

/-- A value on one line. -/
def compact : Json → List Char
  | .null => ['n', 'u', 'l', 'l']
  | .bool true => ['t', 'r', 'u', 'e']
  | .bool false => ['f', 'a', 'l', 's', 'e']
  | .number n => n.text
  | .string s => stringText s
  | .array [] => ['[', ']']
  | .array (item :: items) => '[' :: compact item ++ compactItems items
  | .object [] => ['\x7b', '\x7d']
  | .object ((name, value) :: members) =>
    '\x7b' :: stringText name ++ ':' :: compact value ++ compactMembers members

/-- The items after the first, and the closing bracket. -/
def compactItems : List Json → List Char
  | [] => [']']
  | item :: items => ',' :: compact item ++ compactItems items

/-- The members after the first, and the closing brace. -/
def compactMembers : List (String × Json) → List Char
  | [] => ['\x7d']
  | (name, value) :: members =>
    ',' :: stringText name ++ ':' :: compact value ++ compactMembers members

end

/-! ## Indented -/

/-- A line break and the blanks of a nesting level. -/
def breakAt (level : Nat) : List Char :=
  '\n' :: List.replicate (2 * level) ' '

mutual

/-- A value whose brackets stand on a line at `level`. -/
def indented (level : Nat) : Json → List Char
  | .null => ['n', 'u', 'l', 'l']
  | .bool true => ['t', 'r', 'u', 'e']
  | .bool false => ['f', 'a', 'l', 's', 'e']
  | .number n => n.text
  | .string s => stringText s
  | .array [] => ['[', ']']
  | .array (item :: items) =>
    '[' :: breakAt (level + 1) ++ indented (level + 1) item ++ indentedItems level items
  | .object [] => ['\x7b', '\x7d']
  | .object ((name, value) :: members) =>
    '\x7b' :: breakAt (level + 1) ++ stringText name ++ ':' :: ' ' ::
      indented (level + 1) value ++ indentedMembers level members

/-- The items after the first, and the closing bracket. -/
def indentedItems (level : Nat) : List Json → List Char
  | [] => breakAt level ++ [']']
  | item :: items =>
    ',' :: breakAt (level + 1) ++ indented (level + 1) item ++ indentedItems level items

/-- The members after the first, and the closing brace. -/
def indentedMembers (level : Nat) : List (String × Json) → List Char
  | [] => breakAt level ++ ['\x7d']
  | (name, value) :: members =>
    ',' :: breakAt (level + 1) ++ stringText name ++ ':' :: ' ' ::
      indented (level + 1) value ++ indentedMembers level members

end

/-- The value on one line. -/
def render (j : Json) : String :=
  String.ofList j.compact

/-- The value over several lines. -/
def renderIndented (j : Json) : String :=
  String.ofList (j.indented 0)

end CompilerRemarks.Json
