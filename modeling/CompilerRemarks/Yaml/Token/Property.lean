/-
  CompilerRemarks.Yaml.Token.Property

  Reading anchors, aliases and tags, and the two directives that may stand
  before a document.
-/
import CompilerRemarks.Yaml.Token.Basic

namespace CompilerRemarks.Yaml

/-! ## Anchors and aliases -/

/-- What may follow the name of an anchor or alias. -/
def endsAnchor : List Char → Bool
  | [] => true
  | c :: _ => isGap c || isBreak c || c == '?' || c == ':' || c == ',' || c == ']' ||
    c == '\x7d' || c == '%' || c == '@' || c == '\x60'

/-- Reads the name after the indicator at the cursor. -/
def anchorName? (cur : Cursor) : Option (List Char × Cursor) :=
  let (name, cur) := (cur.advance 1).take isNameChar
  if name.isEmpty || !endsAnchor cur.rest then none else some (name, cur)

/-! ## Tags -/

/-- The characters of a tag; flow marks only in the bracketed form. -/
def isUriChar (bracketed : Bool) (c : Char) : Bool :=
  isNameChar c || ";/?:@&=+$.%!~*'()".toList.contains c ||
    (bracketed && (c == ',' || c == '[' || c == ']'))

/-- How many bytes the character of a leading byte has. -/
def leadWidth? (b : Nat) : Option Nat :=
  if b < 0x80 then some 1
  else if 0xC0 ≤ b && b < 0xE0 then some 2
  else if 0xE0 ≤ b && b < 0xF0 then some 3
  else if 0xF0 ≤ b && b < 0xF8 then some 4
  else none

/-- Reads one escaped byte. -/
def escapedByte? : List Char → Option (Nat × List Char)
  | '%' :: a :: b :: rest => (Text.digits? 16 [a, b]).map (·, rest)
  | _ => none

/-- Reads `n` escaped continuation bytes. -/
def escapedTail? : Nat → List Char → Option (List UInt8 × List Char)
  | 0, s => some ([], s)
  | n + 1, s =>
    match escapedByte? s with
    | none => none
    | some (b, rest) =>
      if 0x80 ≤ b && b < 0xC0 then
        (escapedTail? n rest).map fun (bytes, rest) => (b.toUInt8 :: bytes, rest)
      else none

/-- Reads the escaped bytes of one character. -/
def escapedChar? (s : List Char) : Option (List UInt8 × List Char) :=
  match escapedByte? s with
  | none => none
  | some (b, rest) =>
    match leadWidth? b with
    | none => none
    | some width =>
      (escapedTail? (width - 1) rest).map fun (bytes, rest) => (b.toUInt8 :: bytes, rest)

/-- Reads the characters of a tag as bytes. -/
def uriBytes? (bracketed : Bool) : Nat → Cursor → Option (List UInt8 × Cursor)
  | 0, cur => some ([], cur)
  | fuel + 1, cur =>
    match cur.rest with
    | [] => some ([], cur)
    | c :: _ =>
      if c == '%' then
        match escapedChar? cur.rest with
        | none => none
        | some (bytes, _) =>
          (uriBytes? bracketed fuel (cur.advance (3 * bytes.length))).map
            fun (more, cur) => (bytes ++ more, cur)
      else if isUriChar bracketed c then
        (uriBytes? bracketed fuel (cur.advance 1)).map
          fun (more, cur) => (Text.Utf8.encodeChar c ++ more, cur)
      else some ([], cur)

/-- Reads a tag's characters, at least one unless something stands before
    them. A tag ends at its first NUL, though more may be written. -/
def uri? (bracketed : Bool) (before : Bool) (cur : Cursor) : Option (List UInt8 × Cursor) :=
  match uriBytes? bracketed (cur.rest.length + 1) cur with
  | some ([], cur) => if before then some ([], cur) else none
  | some (bytes, cur) => some (bytes.takeWhile (· != 0), cur)
  | none => none

/-- Reads `!`, name characters and, if it is there, a second `!`. -/
def handle (cur : Cursor) : List Char × Cursor :=
  let (name, next) := (cur.advance 1).take isNameChar
  if next.isAt '!' then ('!' :: name ++ ['!'], next.advance 1) else ('!' :: name, next)

/-- Reads a tag: `!<...>`, `!handle!suffix`, `!suffix` or a lone `!`. The
    bracketed form and the lone mark have no handle. -/
def tagParts? (cur : Cursor) : Option ((List Char × List UInt8) × Cursor) :=
  match cur.rest with
  | _ :: '<' :: _ =>
    match uri? true false (cur.advance 2) with
    | none => none
    | some (suffix, cur) => if cur.isAt '>' then some (([], suffix), cur.advance 1) else none
  | _ =>
    let (h, next) := handle cur
    if h.length > 1 && h.getLast? == some '!' then
      (uri? false false next).map fun (suffix, cur) => ((h, suffix), cur)
    else
      (uri? false true next).map fun (more, cur) =>
        let suffix := Text.Utf8.encode (h.drop 1) ++ more
        if suffix.isEmpty then (([], [0x21]), cur) else ((['!'], suffix), cur)

/-- Reads a tag and checks what follows it. -/
def tagToken? (flow : Bool) (cur : Cursor) : Option (Token × Cursor) :=
  match tagParts? cur with
  | none => none
  | some ((h, suffix), cur) =>
    if atGap cur.rest || (flow && cur.isAt ',') then some (.tag h suffix, cur) else none

/-! ## Directives -/

/-- Reads a number of at most nine digits. -/
def versionNumber? (cur : Cursor) : Option (Nat × Cursor) :=
  let (digits, cur) := cur.take fun c => '0' ≤ c && c ≤ '9'
  if digits.length > 9 then none else (Text.digits? 10 digits).map (·, cur)

/-- Reads the value of a version directive. -/
def version? (cur : Cursor) : Option (Token × Cursor) :=
  match versionNumber? (cur.skipWhile isGap) with
  | none => none
  | some (major, cur) =>
    if cur.isAt '.' then
      (versionNumber? (cur.advance 1)).map fun (minor, cur) => (.version major minor, cur)
    else none

/-- Reads the value of a tag directive: a handle and what it stands for. -/
def tagShorthand? (cur : Cursor) : Option (Token × Cursor) :=
  let cur := cur.skipWhile isGap
  if !cur.isAt '!' then none
  else
    let (h, cur) := handle cur
    if h != ['!'] && h.getLast? != some '!' then none
    else
      match cur.rest with
      | c :: _ =>
        if isGap c then
          match uri? true false (cur.skipWhile isGap) with
          | none => none
          | some (uri, cur) => if atGap cur.rest then some (.tagShorthand h uri, cur) else none
        else none
      | [] => none

/-- Reads a directive line. -/
def directive? (cur : Cursor) : Option (Token × Cursor) :=
  let (name, cur) := (cur.advance 1).take isNameChar
  if name.isEmpty || !atGap cur.rest then none
  else
    let value? := if name == "YAML".toList then version? cur
      else if name == "TAG".toList then tagShorthand? cur
      else none
    match value? with
    | none => none
    | some (token, cur) => cur.finishLine?.map (token, ·)

end CompilerRemarks.Yaml
