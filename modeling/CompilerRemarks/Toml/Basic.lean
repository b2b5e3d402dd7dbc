/-
  CompilerRemarks.Toml.Basic

  TOML values. A table remembers how it came about, because that decides
  whether a later line of the document may add to it.
-/
import CompilerRemarks.Decimal.Basic

namespace CompilerRemarks

/-- How a table came about. -/
inductive Toml.Origin where
  /-- Opened by its own header. -/
  | header
  /-- On the way to a table with a longer header. -/
  | implied
  /-- On the way to the last part of a dotted key. -/
  | dotted
  /-- Written in braces. -/
  | inline
  deriving DecidableEq, Repr

/-- A TOML value. -/
inductive Toml where
  | string (s : String)
  | integer (n : Int)
  | float (x : Double)
  | boolean (b : Bool)
  /-- A date, a time of day, or both. -/
  | moment (s : String)
  /-- A list written in brackets. -/
  | array (items : List Toml)
  /-- The tables of repeated double-bracket headers. -/
  | tables (items : List Toml)
  | table (origin : Toml.Origin) (members : List (String × Toml))
  deriving Repr

namespace Toml

/-! ## Access -/

/-- The member of this name, if the value is a table that has one. -/
def get? (t : Toml) (name : String) : Option Toml :=
  match t with
  | .table _ members => members.lookup name
  | _ => none

/-- The text of a string. -/
def string? : Toml → Option String
  | .string s => some s
  | _ => none

/-- The value of an integer that is not negative and has at most 64 bits. -/
def natural? : Toml → Option Nat
  | .integer n => if 0 ≤ n ∧ n < Nat.pow 2 64 then some n.toNat else none
  | _ => none

/-- The items of a list of either kind. -/
def array? : Toml → Option (List Toml)
  | .array items => some items
  | .tables items => some items
  | _ => none

/-- Whether the value is a list or a table without anything in it. -/
def isHollow : Toml → Bool
  | .array items => items.isEmpty
  | .table _ members => members.isEmpty
  | _ => false

/-- The name a value picks out of an enumeration: a string, or the only
    member of a table where that member is hollow. -/
def choice? : Toml → Option String
  | .string s => some s
  | .table _ [(name, v)] => if v.isHollow then some name else none
  | _ => none

end Toml

end CompilerRemarks
