/-
  CompilerRemarks.Source

  Places in a source file as a compiler reports them: lines count from one,
  and line or column `0` means that the compiler had none to offer. Editors
  count lines and columns from zero.
-/
import CompilerRemarks.Text.Numeral

namespace CompilerRemarks

/-! ## Saturating steps -/

/-- The greatest 32-bit word. -/
def maxWord : UInt32 := 4294967295

/-- The next word; the greatest one stays where it is. -/
def wordSucc (n : UInt32) : UInt32 :=
  if n == maxWord then maxWord else n + 1

/-- The previous word; zero stays where it is. -/
def wordPred (n : UInt32) : UInt32 :=
  if n == 0 then 0 else n - 1

/-! ## Positions -/

/-- A line and a column. -/
structure Position where
  line : UInt32
  column : UInt32
  deriving DecidableEq, Repr

/-- Lexicographic order: by line, then by column. -/
def Position.le (p q : Position) : Bool :=
  p.line < q.line || (p.line == q.line && p.column ≤ q.column)

/-! ## Ranges -/

/-- The positions from `first` to `last`, both included. -/
structure Range where
  first : Position
  last : Position
  deriving DecidableEq, Repr

namespace Range

/-- Every column of the lines from `a` to `b`. -/
def lines (a b : UInt32) : Range :=
  ⟨⟨a, 0⟩, ⟨b, maxWord⟩⟩

/-- The range of an editor selection, which counts from zero. A selection
    from the first column also covers column `0`. -/
def ofEditor (startLine startColumn endLine endColumn : UInt32) : Range :=
  ⟨⟨wordSucc startLine, if startColumn == 0 then 0 else wordSucc startColumn⟩,
    ⟨wordSucc endLine, wordSucc endColumn⟩⟩

/-- Whether the range starts after it ends. -/
def isInverted (r : Range) : Bool :=
  !r.first.le r.last

/-- Whether a position lies in the range. -/
def contains (r : Range) (p : Position) : Bool :=
  r.first.le p && p.le r.last

/-- The range as `[line,column]-[line,column]`. -/
def text (r : Range) : String :=
  let point (p : Position) := "[" ++ Text.decimal p.line.toNat ++ "," ++
    Text.decimal p.column.toNat ++ "]"
  point r.first ++ "-" ++ point r.last

end Range

end CompilerRemarks
