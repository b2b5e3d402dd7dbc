/-
  CompilerRemarks.Text.Blank

  White space as Unicode counts it, and the trimming and word splitting
  that rest on it.
-/

namespace CompilerRemarks.Text

/-! ## The property -/

/-- Characters with the Unicode property `White_Space`. -/
def isBlank (c : Char) : Bool :=
  let n := c.toNat
  (9 ≤ n && n ≤ 13) || n == 0x20 || n == 0x85 || n == 0xA0 || n == 0x1680 ||
    (0x2000 ≤ n && n ≤ 0x200A) || n == 0x2028 || n == 0x2029 || n == 0x202F ||
    n == 0x205F || n == 0x3000

/-- The five bytes that count as ASCII white space; vertical tab is not one. -/
def isAsciiBlank (b : UInt8) : Bool :=
  b == 9 || b == 10 || b == 12 || b == 13 || b == 32

/-! ## Trimming -/

/-- The text without its leading blanks. -/
def trimStart (s : List Char) : List Char :=
  s.dropWhile isBlank

/-- The text without its trailing blanks. -/
def trimEnd (s : List Char) : List Char :=
  (s.reverse.dropWhile isBlank).reverse

/-- The text without the blanks at either end. -/
def trim (s : List Char) : List Char :=
  trimEnd (trimStart s)

/-! ## Words -/

/-- Walks the text with the word read so far, reversed, and emits each
    maximal run of characters that are not blank. -/
def wordsFrom : List Char → List Char → List (List Char)
  | acc, [] => if acc.isEmpty then [] else [acc.reverse]
  | acc, c :: rest =>
    if isBlank c then
      if acc.isEmpty then wordsFrom [] rest else acc.reverse :: wordsFrom [] rest
    else wordsFrom (c :: acc) rest

/-- The maximal runs of non-blank characters. -/
def words (s : List Char) : List (List Char) :=
  wordsFrom [] s

/-! ## On strings -/

/-- The string without the blanks at either end. -/
def trimmed (s : String) : String :=
  String.ofList (trim s.toList)

/-- The string without its trailing blanks. -/
def trimmedEnd (s : String) : String :=
  String.ofList (trimEnd s.toList)

end CompilerRemarks.Text
