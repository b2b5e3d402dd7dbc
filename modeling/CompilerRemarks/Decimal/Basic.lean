/-
  CompilerRemarks.Decimal.Basic

  Decimal numerals `±digits · 10^exponent`, the grammar they are read from,
  and the nearest double-precision number.
-/
import CompilerRemarks.Text.Numeral

namespace CompilerRemarks

/-- A decimal numeral: `±digits · 10^exponent`. -/
structure Decimal where
  negative : Bool
  digits : Nat
  exponent : Int
  deriving DecidableEq, Repr

/-- A double-precision number; a finite one is `±mantissa · 2^exponent`. -/
inductive Double where
  | finite (negative : Bool) (mantissa : Nat) (exponent : Int)
  | infinite (negative : Bool)
  | nan
  deriving DecidableEq, Repr

namespace Double

/-- Numbers that differ only in the sign of zero are the same, and so is
    every NaN. -/
def same : Double → Double → Bool
  | .nan, .nan => true
  | .infinite a, .infinite b => a == b
  | .finite n m q, .finite n' m' q' =>
    (m == 0 && m' == 0) || (n == n' && m == m' && q == q')
  | _, _ => false

/-- Whether the number is finite. -/
def isFinite : Double → Bool
  | .finite .. => true
  | _ => false

end Double

namespace Decimal

/-! ## Reading -/

/-- Reads digits and returns the value so far, their count and the rest. -/
def takeDigits : Nat → Nat → List Char → Nat × Nat × List Char
  | acc, count, [] => (acc, count, [])
  | acc, count, c :: rest =>
    if '0' ≤ c && c ≤ '9' then takeDigits (acc * 10 + (c.toNat - 48)) (count + 1) rest
    else (acc, count, c :: rest)

/-- The exponent part: nothing, or `e` with an optional sign and digits. -/
def exponentPart? : List Char → Option Int
  | [] => some 0
  | e :: rest =>
    if e == 'e' || e == 'E' then
      match rest with
      | '+' :: ds => (Text.digits? 10 ds).map Int.ofNat
      | '-' :: ds => (Text.digits? 10 ds).map fun n => -(Int.ofNat n)
      | ds => (Text.digits? 10 ds).map Int.ofNat
    else none

/-- An unsigned numeral: digits with an optional point, at least one digit,
    and an optional exponent. -/
def unsigned? (negative : Bool) (s : List Char) : Option Decimal :=
  let (whole, wholeCount, rest) := takeDigits 0 0 s
  let (value, fraction, rest) := match rest with
    | '.' :: tail =>
      let (v, k, tail) := takeDigits whole 0 tail
      (v, k, tail)
    | _ => (whole, 0, rest)
  if wholeCount + fraction == 0 then none
  else (exponentPart? rest).map fun e => ⟨negative, value, e - Int.ofNat fraction⟩

/-- A numeral with an optional sign. -/
def ofChars? : List Char → Option Decimal
  | '-' :: rest => unsigned? true rest
  | '+' :: rest => unsigned? false rest
  | s => unsigned? false s

/-! ## Rounding to double precision -/

/-- `num / den` rounded to the nearest integer, a tie to the even one. -/
def roundDiv (num den : Nat) : Nat :=
  let quotient := num / den
  let twice := 2 * (num % den)
  if twice > den || (twice == den && quotient % 2 == 1) then quotient + 1 else quotient

/-- `num / den / 2^q` as a fraction of naturals. -/
def scaleBinary (num den : Nat) (q : Int) : Nat × Nat :=
  if 0 ≤ q then (num, den * Nat.pow 2 q.toNat) else (num * Nat.pow 2 (-q).toNat, den)

/-- The least binary exponent of a double. -/
def leastExponent : Int := -1074

/-- The greatest binary exponent of a finite double. -/
def greatestExponent : Int := 971

/-- The double nearest to the positive fraction `num / den`. -/
def nearest (negative : Bool) (num den : Nat) : Double :=
  let guess : Int := Int.ofNat num.log2 - Int.ofNat den.log2 - 52
  let clamp (q : Int) : Int := if q < leastExponent then leastExponent else q
  let floorAt (q : Int) : Nat := let (n, d) := scaleBinary num den q; n / d
  let q := if floorAt (clamp guess) < Nat.pow 2 52 then clamp (guess - 1) else clamp guess
  let (n, d) := scaleBinary num den q
  let m := roundDiv n d
  let (m, q) := if m == Nat.pow 2 53 then (Nat.pow 2 52, q + 1) else (m, q)
  if q > greatestExponent then .infinite negative else .finite negative m q

/-- The number of decimal digits of `n`. -/
def width (n : Nat) : Nat :=
  (Nat.toDigits 10 n).length

/-- The double nearest to a numeral. Exponents far outside the range of
    doubles are settled by the position of the leading digit. -/
def toDouble (x : Decimal) : Double :=
  if x.digits == 0 then .finite x.negative 0 leastExponent
  else
    let leading := x.exponent + Int.ofNat (width x.digits)
    if leading > 400 then .infinite x.negative
    else if leading < -400 then .finite x.negative 0 leastExponent
    else if 0 ≤ x.exponent then nearest x.negative (x.digits * Nat.pow 10 x.exponent.toNat) 1
    else nearest x.negative x.digits (Nat.pow 10 (-x.exponent).toNat)

end Decimal

end CompilerRemarks
