/-
  CompilerRemarks.Json.Basic

  JSON values. An object keeps its members in the order in which they were
  written; of members with one name, the last one counts.
-/
import CompilerRemarks.Decimal.Basic

namespace CompilerRemarks

/-- A JSON number. Integers of 64 bits keep their kind; every other numeral
    is a decimal. -/
inductive Json.Number where
  /-- An integer from `0` to `2^64 - 1`. -/
  | natural (n : Nat)
  /-- The integer `-n`, from `-2^63` to `-1`. -/
  | negated (n : Nat)
  /-- Any other number. -/
  | decimal (d : Decimal)
  deriving DecidableEq, Repr

/-- A JSON value. -/
inductive Json where
  | null
  | bool (b : Bool)
  | number (n : Json.Number)
  | string (s : String)
  | array (items : List Json)
  | object (members : List (String × Json))
  deriving Repr

namespace Json

/-! ## Access -/

/-- The member of this name, if the value is an object that has one. -/
def get? (j : Json) (name : String) : Option Json :=
  match j with
  | .object members => (members.reverse.find? (·.1 == name)).map (·.2)
  | _ => none

/-- The text of a string. -/
def string? : Json → Option String
  | .string s => some s
  | _ => none

/-- The value of an integer that is not negative. -/
def natural? : Json → Option Nat
  | .number (.natural n) => some n
  | _ => none

/-- The value of an integer of 32 bits that is not negative. -/
def word32? (j : Json) : Option UInt32 :=
  (j.natural?.filter (· < 4294967296)).map (·.toUInt32)

/-- The value of a boolean. -/
def bool? : Json → Option Bool
  | .bool b => some b
  | _ => none

/-- The items of an array. -/
def array? : Json → Option (List Json)
  | .array items => some items
  | _ => none

/-- Whether the value is `null`. -/
def isNull : Json → Bool
  | .null => true
  | _ => false

/-! ## Construction -/

/-- The number of a natural. -/
def nat (n : Nat) : Json :=
  .number (.natural n)

/-- The number of a 32-bit word. -/
def word (n : UInt32) : Json :=
  nat n.toNat

end Json

end CompilerRemarks
