/-
  CompilerRemarks.Text.Numeral

  Reading unsigned integers from text: digits in a radix, and the decimal
  form with an optional plus sign and an upper bound.
-/

namespace CompilerRemarks.Text

/-! ## Digits -/

/-- The value of a digit in radices up to sixteen. -/
def digitValue? (c : Char) : Option Nat :=
  let n := c.toNat
  if 48 ≤ n && n ≤ 57 then some (n - 48)
  else if 97 ≤ n && n ≤ 102 then some (n - 87)
  else if 65 ≤ n && n ≤ 70 then some (n - 55)
  else none

/-- Reads on from `acc`; every character must be a digit of `radix`. -/
def digitsFrom? (radix : Nat) : Nat → List Char → Option Nat
  | acc, [] => some acc
  | acc, c :: rest =>
    match digitValue? c with
    | some d => if d < radix then digitsFrom? radix (acc * radix + d) rest else none
    | none => none

/-- The number written by one or more digits of `radix`. -/
def digits? (radix : Nat) (s : List Char) : Option Nat :=
  if s.isEmpty then none else digitsFrom? radix 0 s

/-! ## Bounded numbers -/

/-- A decimal number below `bound`; one leading `+` is allowed. -/
def decimalBelow? (bound : Nat) (s : List Char) : Option Nat :=
  let body := match s with
    | '+' :: rest => rest
    | _ => s
  (digits? 10 body).filter (· < bound)

/-- A decimal number of at most 32 bits; one leading `+` is allowed. -/
def word32? (s : List Char) : Option UInt32 :=
  (decimalBelow? 4294967296 s).map (·.toUInt32)

/-! ## Rendering -/

/-- The decimal digits of a number. -/
def decimal (n : Nat) : String :=
  String.ofList (Nat.toDigits 10 n)

/-- The digit of a value below sixteen, in lower case. -/
def hexDigit (n : Nat) : Char :=
  if n < 10 then Char.ofNat (48 + n) else Char.ofNat (87 + n)

end CompilerRemarks.Text
