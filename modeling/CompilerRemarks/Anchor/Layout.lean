/-
  CompilerRemarks.Anchor.Layout

  The layout of a text: which bracket closes which, and the line and column
  of an offset.
-/
import CompilerRemarks.Source
import CompilerRemarks.Text.Blank

namespace CompilerRemarks.Anchor

/-! ## Brackets -/

/-- Walks on with `depth` brackets open; the answer counts from the head. -/
def closingFrom (left right : UInt8) : Nat → List UInt8 → Option Nat
  | _, [] => none
  | depth, b :: rest =>
    if b == left then (closingFrom left right (depth + 1) rest).map (· + 1)
    else if b == right then
      if depth == 1 then some 0 else (closingFrom left right (depth - 1) rest).map (· + 1)
    else (closingFrom left right depth rest).map (· + 1)

/-- The offset of the bracket that closes the one at `start`. -/
def matching? (bytes : List UInt8) (start : Nat) (left right : UInt8) : Option Nat :=
  if bytes[start]? == some left then
    (closingFrom left right 0 (bytes.drop start)).map (start + ·)
  else none

/-! ## Bytes -/

/-- The first byte at or after an offset with a property, and its offset. -/
def findByte? (bytes : List UInt8) (start : Nat) (p : UInt8 → Bool) : Option (Nat × UInt8) :=
  let rest := bytes.drop start
  let skipped := rest.takeWhile (!p ·)
  match rest.drop skipped.length with
  | b :: _ => some (start + skipped.length, b)
  | [] => none

/-- The first byte at or after an offset that is not white space. -/
def nextCode? (bytes : List UInt8) (start : Nat) : Option (Nat × UInt8) :=
  findByte? bytes start (!Text.isAsciiBlank ·)

/-! ## Lines -/

/-- The offsets at which the lines after the first start. -/
def laterStarts : Nat → List UInt8 → List Nat
  | _, [] => []
  | offset, b :: rest =>
    if b == 0x0A then (offset + 1) :: laterStarts (offset + 1) rest
    else laterStarts (offset + 1) rest

/-- The offsets at which lines start. -/
def lineStarts (bytes : List UInt8) : List Nat :=
  0 :: laterStarts 0 bytes

/-- A natural as a word; what does not fit is the greatest word. -/
def clampWord (n : Nat) : UInt32 :=
  if n < 4294967296 then n.toUInt32 else maxWord

/-- The line and column of an offset, both counted from one. -/
def positionOf (starts : List Nat) (offset : Nat) : Position :=
  let before := starts.takeWhile (· ≤ offset)
  ⟨clampWord before.length, clampWord (offset - before.getLast?.getD 0 + 1)⟩

/-- The range between two offsets. -/
def rangeOf (starts : List Nat) (first last : Nat) : Range :=
  ⟨positionOf starts first, positionOf starts last⟩

end CompilerRemarks.Anchor
