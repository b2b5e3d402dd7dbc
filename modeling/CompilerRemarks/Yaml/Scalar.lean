/-
  CompilerRemarks.Yaml.Scalar

  What a plain scalar stands for: null, a boolean, an integer, a float, or
  else its own text. Integers are decimal, or `0x`, `0o` and `0b` with a sign;
  decimal digits after a leading zero are text.
-/
import CompilerRemarks.Yaml.Value

namespace CompilerRemarks.Yaml.Scalar

/-! ## Null and booleans -/

/-- The spellings of null. -/
def isNull (s : List Char) : Bool :=
  s == "null".toList || s == "Null".toList || s == "NULL".toList || s == "~".toList

/-- The spellings of the booleans. -/
def bool? (s : List Char) : Option Bool :=
  if s == "true".toList || s == "True".toList || s == "TRUE".toList then some true
  else if s == "false".toList || s == "False".toList || s == "FALSE".toList then some false
  else none

/-! ## Integers -/

/-- Decimal digits with a leading zero, with or without a sign: text, not a number. -/
def isZeroLed (s : List Char) : Bool :=
  let body := match s with
    | '-' :: rest => rest
    | '+' :: rest => rest
    | _ => s
  match body with
  | '0' :: c :: rest => (c :: rest).all fun d => '0' ≤ d && d ≤ '9'
  | _ => false

/-- The digits of an unsigned integer in the radix that its first two
    characters announce. -/
def radixDigits? : List Char → Option Nat
  | '0' :: 'x' :: rest => Text.digits? 16 rest
  | '0' :: 'o' :: rest => Text.digits? 8 rest
  | '0' :: 'b' :: rest => Text.digits? 2 rest
  | _ => none

/-- An integer without a minus sign. -/
def unsigned? (s : List Char) : Option Nat :=
  let body := match s with
    | '+' :: rest => rest
    | _ => s
  match radixDigits? body with
  | some n => some n
  | none => if isZeroLed s then none else Text.digits? 10 body

/-- The magnitude of an integer with a minus sign. -/
def negated? : List Char → Option Nat
  | '-' :: rest =>
    match radixDigits? rest with
    | some n => some n
    | none => if isZeroLed rest then none else Text.digits? 10 rest
  | _ => none

/-- What an integer spelling comes to. -/
inductive Integer where
  | fits (n : Number)
  /-- An integer of more than 64 but at most 128 bits, which no document may hold. -/
  | tooWide

/-- The integer that a text spells, if it spells one of at most 128 bits. -/
def integer? (s : List Char) : Option Integer :=
  match unsigned? s, negated? s with
  | some n, _ =>
    if n < Nat.pow 2 64 then some (.fits (.natural n))
    else if n < Nat.pow 2 128 then some .tooWide
    else none
  | none, some n =>
    if n == 0 then some (.fits (.natural 0))
    else if n ≤ Nat.pow 2 63 then some (.fits (.negated n))
    else if n ≤ Nat.pow 2 127 then some .tooWide
    else none
  | none, none => none

/-! ## Floats -/

/-- The spellings of infinity. -/
def isInfinity (s : List Char) : Bool :=
  s == ".inf".toList || s == ".Inf".toList || s == ".INF".toList

/-- The spellings of NaN. -/
def isNaN (s : List Char) : Bool :=
  s == ".nan".toList || s == ".NaN".toList || s == ".NAN".toList

/-- The float that a text spells; a numeral out of range spells none. -/
def float? (s : List Char) : Option Double :=
  let finite? (t : List Char) : Option Double :=
    ((Decimal.ofChars? t).map Decimal.toDouble).filter Double.isFinite
  match s with
  | '+' :: rest =>
    match rest with
    | '+' :: _ => none
    | '-' :: _ => none
    | _ => if isInfinity rest then some (.infinite false) else finite? rest
  | '-' :: rest => if isInfinity rest then some (.infinite true) else finite? s
  | _ =>
    if isInfinity s then some (.infinite false)
    else if isNaN s then some .nan
    else finite? s

/-! ## Resolution -/

/-- The value of a plain scalar; `none` for an integer that is too wide. -/
def plain? (s : List Char) : Option Value :=
  if s.isEmpty || isNull s then some .null
  else match bool? s with
  | some b => some (.bool b)
  | none =>
    match integer? s with
    | some (.fits n) => some (.number n)
    | some .tooWide => none
    | none =>
      let asText := Value.string (String.ofList s)
      if isZeroLed s then some asText
      else some (((float? s).map fun x => .number (.double x)).getD asText)

/-- The namespace of the tags that YAML itself defines. -/
def coreTag (name : String) : List Char :=
  ("tag:yaml.org,2002:" ++ name).toList

/-- The value of a scalar with a tag that is not an application's own: the
    core tags coerce, and any other one makes the scalar text. -/
def coerce? (tag : List Char) (s : List Char) : Option Value :=
  if tag == coreTag "bool" then (bool? s).map .bool
  else if tag == coreTag "int" then
    match integer? s with
    | some (.fits n) => some (.number n)
    | _ => none
  else if tag == coreTag "float" then (float? s).map fun x => .number (.double x)
  else if tag == coreTag "null" then (if isNull s then some .null else none)
  else some (.string (String.ofList s))

end CompilerRemarks.Yaml.Scalar
