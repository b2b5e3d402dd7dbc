/-
  CompilerRemarks.Decimal.Shortest

  The shortest decimal that reads back as a given double, and its text.
  A decimal reads back as `m · 2^q` when it lies in the interval of numbers
  that round to it; the search goes from coarse decimal grids to fine ones
  and takes the grid point nearest to the number on the first grid that
  meets the interval.
-/
import CompilerRemarks.Decimal.Basic

namespace CompilerRemarks.Double

/-! ## The rounding interval -/

/-- The numbers that round to a double, over one common denominator. -/
structure Interval where
  low : Nat
  value : Nat
  high : Nat
  den : Nat
  closed : Bool

/-- The interval around `m · 2^q`; its ends belong to it when `m` is even.
    Below a power of two the doubles lie twice as dense. -/
def interval (m : Nat) (q : Int) : Interval :=
  let gap := if m == Nat.pow 2 52 && q > Decimal.leastExponent then 1 else 2
  let up := if q - 2 ≥ 0 then Nat.pow 2 (q - 2).toNat else 1
  let den := if q - 2 ≥ 0 then 1 else Nat.pow 2 (2 - q).toNat
  { low := (4 * m - gap) * up, value := 4 * m * up, high := (4 * m + 2) * up, den,
    closed := m % 2 == 0 }

/-- Whether `n · scaleNum / scaleDen` lies in the interval. -/
def Interval.holds (i : Interval) (n scaleNum scaleDen : Nat) : Bool :=
  let x := n * scaleNum * i.den
  let low := i.low * scaleDen
  let high := i.high * scaleDen
  if i.closed then low ≤ x && x ≤ high else low < x && x < high

/-- The point of the grid with spacing `10^k` that is nearest to the value
    and lies in the interval; a tie goes to the even neighbour. -/
def Interval.gridPoint? (i : Interval) (k : Int) : Option Nat :=
  let scaleNum := if k ≥ 0 then Nat.pow 10 k.toNat else 1
  let scaleDen := if k ≥ 0 then 1 else Nat.pow 10 (-k).toNat
  let num := i.value * scaleDen
  let den := i.den * scaleNum
  let below := num / den
  let near := Decimal.roundDiv num den
  let far := if near == below then below + 1 else below
  if near != 0 && i.holds near scaleNum scaleDen then some near
  else if far != 0 && i.holds far scaleNum scaleDen then some far
  else none

/-- Tries `fuel` grids, each ten times finer than the one before. -/
def search (i : Interval) : Nat → Int → Nat × Int
  | 0, k => (0, k)
  | fuel + 1, k =>
    match i.gridPoint? k with
    | some n => (n, k)
    | none => search i fuel (k - 1)

/-- Drops trailing zeros of a positive number, counting them in the exponent. -/
def stripZeros : Nat → Nat → Int → Nat × Int
  | 0, n, k => (n, k)
  | fuel + 1, n, k => if n % 10 == 0 then stripZeros fuel (n / 10) (k + 1) else (n, k)

/-- Digits and decimal exponent of the shortest decimal for `m · 2^q`, `m` positive. -/
def shortest (m : Nat) (q : Int) : Nat × Int :=
  let i := interval m q
  let top : Int := Int.ofNat (Decimal.width i.value) - Int.ofNat (Decimal.width i.den) + 1
  let (n, k) := search i 24 top
  stripZeros 24 n k

/-! ## The text -/

/-- How many places left of the point are written positionally. -/
def positionalHigh : Int := 16

/-- How many zeros may follow the point in positional form. -/
def positionalLow : Int := -5

/-- A positive decimal in positional form when its point is near its digits,
    else with an exponent. A positional number has at least one fraction digit. -/
def layout (digits : List Char) (k : Int) : List Char :=
  let point := Int.ofNat digits.length + k
  if 0 ≤ k && point ≤ positionalHigh then
    digits ++ List.replicate k.toNat '0' ++ ['.', '0']
  else if 0 < point && point ≤ positionalHigh then
    digits.take point.toNat ++ '.' :: digits.drop point.toNat
  else if positionalLow < point && point ≤ 0 then
    ['0', '.'] ++ List.replicate (-point).toNat '0' ++ digits
  else
    let fraction := match digits.drop 1 with
      | [] => []
      | ds => '.' :: ds
    digits.take 1 ++ fraction ++ 'e' :: (toString (point - 1)).toList

/-- The text of a double; the special values have a leading point. -/
def text : Double → String
  | .nan => ".nan"
  | .infinite false => ".inf"
  | .infinite true => "-.inf"
  | .finite negative m q =>
    let body := if m == 0 then ['0', '.', '0']
      else let (n, k) := shortest m q; layout (Nat.toDigits 10 n) k
    String.ofList (if negative then '-' :: body else body)

end CompilerRemarks.Double
