/-
  CompilerRemarks.Toml.Scalar

  Values of one word: numbers, booleans, dates and times.
-/
import CompilerRemarks.Toml.Basic

namespace CompilerRemarks.Toml

/-! ## Digits -/

/-- Whether `c` is a digit of the radix. -/
def isDigitOf (radix : Nat) (c : Char) : Bool :=
  match Text.digitValue? c with
  | some d => d < radix
  | none => false

/-- Drops underscores; each must stand between two digits. `after` tells
    whether a digit precedes. -/
def ungroup? (radix : Nat) : Bool → List Char → Option (List Char)
  | after, [] => if after then some [] else none
  | after, c :: rest =>
    if c == '_' then (if after then ungroup? radix false rest else none)
    else if isDigitOf radix c then (ungroup? radix true rest).map (c :: ·)
    else none

/-- The digits of a group with its underscores dropped. -/
def grouped? (radix : Nat) (s : List Char) : Option (List Char) :=
  ungroup? radix false s

/-- Decimal digits without a needless leading zero. -/
def wholePart? (s : List Char) : Option (List Char) :=
  match s with
  | '0' :: _ :: _ => none
  | _ => grouped? 10 s

/-- The sign of a number and what follows it. -/
def splitSign : List Char → Bool × Bool × List Char
  | '-' :: rest => (true, true, rest)
  | '+' :: rest => (true, false, rest)
  | s => (false, false, s)

/-! ## Integers -/

/-- An integer must fit in 128 bits, signed or not. -/
def inWideRange (n : Int) : Bool :=
  -(Nat.pow 2 127 : Int) ≤ n && n < (Nat.pow 2 128 : Int)

/-- An integer: signed decimal, or unsigned with a radix mark. -/
def integer? (s : List Char) : Option Toml :=
  let (signed, negative, body) := splitSign s
  let value := match body with
    | '0' :: 'x' :: rest => if signed then none else (grouped? 16 rest).bind (Text.digits? 16)
    | '0' :: 'o' :: rest => if signed then none else (grouped? 8 rest).bind (Text.digits? 8)
    | '0' :: 'b' :: rest => if signed then none else (grouped? 2 rest).bind (Text.digits? 2)
    | _ => (wholePart? body).bind (Text.digits? 10)
  match value with
  | none => none
  | some n =>
    let n := if negative then -(Int.ofNat n) else Int.ofNat n
    if inWideRange n then some (.integer n) else none

/-! ## Floats -/

/-- An exponent's digits after `e`, with an optional sign. -/
def exponentDigits? (s : List Char) : Option (List Char) :=
  match s with
  | '-' :: rest => (grouped? 10 rest).map ('-' :: ·)
  | '+' :: rest => grouped? 10 rest
  | _ => grouped? 10 s

/-- An exponent part, or nothing. -/
def exponentText? (s : List Char) : Option (List Char) :=
  match s with
  | [] => some []
  | e :: rest =>
    if e == 'e' || e == 'E' then (exponentDigits? rest).map ('e' :: ·) else none

/-- The plain numeral of an unsigned float: a fraction, an exponent or both
    follow the whole part. -/
def floatText? (s : List Char) : Option (List Char) :=
  let isPlain := fun (c : Char) => isDigitOf 10 c || c == '_'
  let (whole, rest) := s.span isPlain
  match wholePart? whole, rest with
  | none, _ => none
  | some _, [] => none
  | some w, '.' :: rest =>
    let (fraction, rest) := rest.span isPlain
    match grouped? 10 fraction, exponentText? rest with
    | some f, some e => some (w ++ '.' :: f ++ e)
    | _, _ => none
  | some w, rest => (exponentText? rest).map (w ++ ·)

/-- A float: the words for infinity and not-a-number, or a numeral in the
    range of doubles. -/
def float? (s : List Char) : Option Toml :=
  let (_, negative, body) := splitSign s
  if body == ['i', 'n', 'f'] then some (.float (.infinite negative))
  else if body == ['n', 'a', 'n'] then some (.float .nan)
  else
    match (floatText? body).bind (Decimal.unsigned? negative) with
    | none => none
    | some d => if d.toDouble.isFinite then some (.float d.toDouble) else none

/-! ## Dates and times -/

/-- The number written by exactly `count` digits, and the rest. -/
def fixedDigits? (count : Nat) (s : List Char) : Option (Nat × List Char) :=
  let digits := s.take count
  if digits.length == count && digits.all (isDigitOf 10) then
    (Text.digits? 10 digits).map (·, s.drop count)
  else none

/-- The rest after one expected character. -/
def expect? (c : Char) (s : List Char) : Option (List Char) :=
  match s with
  | d :: rest => if c == d then some rest else none
  | [] => none

/-- The number of days of a month. -/
def daysIn (year month : Nat) : Nat :=
  if month == 2 then
    if (year % 4 == 0 && year % 100 != 0) || year % 400 == 0 then 29 else 28
  else if month == 4 || month == 6 || month == 9 || month == 11 then 30
  else 31

/-- Reads a date and returns what follows it. -/
def date? (s : List Char) : Option (List Char) := do
  let (year, s) ← fixedDigits? 4 s
  let s ← expect? '-' s
  let (month, s) ← fixedDigits? 2 s
  let s ← expect? '-' s
  let (day, s) ← fixedDigits? 2 s
  if 1 ≤ month ∧ month ≤ 12 ∧ 1 ≤ day ∧ day ≤ daysIn year month then some s else none

/-- Reads the fraction of a second, if there is one. -/
def secondFraction? (s : List Char) : Option (List Char) :=
  match s with
  | '.' :: rest =>
    let (digits, rest) := rest.span (isDigitOf 10)
    if digits.isEmpty then none else some rest
  | _ => some s

/-- Reads a time of day, whose seconds may be left out, and returns what
    follows it. -/
def time? (s : List Char) : Option (List Char) := do
  let (hour, s) ← fixedDigits? 2 s
  let s ← expect? ':' s
  let (minute, s) ← fixedDigits? 2 s
  if 23 < hour ∨ 59 < minute then none
  else match s with
    | ':' :: rest => do
      let (second, rest) ← fixedDigits? 2 rest
      if 60 < second then none else secondFraction? rest
    | _ => some s

/-- Whether the text is a complete offset from universal time, or nothing. -/
def isOffset (s : List Char) : Bool :=
  match s with
  | [] => true
  | ['Z'] => true
  | ['z'] => true
  | sign :: rest =>
    (sign == '+' || sign == '-') &&
      match fixedDigits? 2 rest with
      | some (hour, ':' :: rest) =>
        match fixedDigits? 2 rest with
        | some (minute, []) => hour ≤ 23 && minute ≤ 59
        | _ => false
      | _ => false

/-- Whether the text is a date, a time of day, or a date with a time. -/
def isMoment (s : List Char) : Bool :=
  match date? s with
  | some [] => true
  | some (mark :: rest) =>
    (mark == 'T' || mark == 't' || mark == ' ') &&
      match time? rest with
      | some rest => isOffset rest
      | none => false
  | none => time? s == some []

/-! ## Words -/

/-- The value of a bare word. -/
def ofWord? (s : List Char) : Option Toml :=
  if s == ['t', 'r', 'u', 'e'] then some (.boolean true)
  else if s == ['f', 'a', 'l', 's', 'e'] then some (.boolean false)
  else if isMoment s then some (.moment (String.ofList s))
  else match integer? s with
    | some v => some v
    | none => float? s

end CompilerRemarks.Toml
