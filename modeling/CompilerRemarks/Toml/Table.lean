/-
  CompilerRemarks.Toml.Table

  How statements build tables: a name is defined once, a header may only
  complete a table that longer headers implied, and a dotted key may only
  extend tables that dotted keys made.
-/
import CompilerRemarks.Toml.Basic

namespace CompilerRemarks.Toml

/-- The members of a table, in the order in which they were defined. -/
abbrev Members := List (String × Toml)

/-- Replaces the value of a name. -/
def replace (name : String) (v : Toml) (members : Members) : Members :=
  members.map fun m => if m.1 == name then (name, v) else m

/-! ## Dotted keys -/

/-- Defines the name at the end of a dotted key. -/
def assign? (v : Toml) : List String → Members → Option Members
  | [], _ => none
  | [name], members =>
    if (members.lookup name).isSome then none else some (members ++ [(name, v)])
  | name :: path, members =>
    match members.lookup name with
    | none => (assign? v path []).map fun inner => members ++ [(name, .table .dotted inner)]
    | some (.table .dotted inner) =>
      (assign? v path inner).map fun inner => replace name (.table .dotted inner) members
    | some (.table .implied inner) =>
      if path.length == 1 then none
      else (assign? v path inner).map fun inner => replace name (.table .implied inner) members
    | some _ => none

/-! ## Headers -/

/-- Changes the table that a path of names leads to. Missing tables on the
    way are implied; of repeated tables, the last one counts. -/
def reach? (change : Members → Option Members) : List String → Members → Option Members
  | [], members => change members
  | name :: path, members =>
    match members.lookup name with
    | none => (reach? change path []).map fun inner => members ++ [(name, .table .implied inner)]
    | some (.table origin inner) =>
      if origin == .inline then none
      else (reach? change path inner).map fun inner => replace name (.table origin inner) members
    | some (.tables items) =>
      match items.getLast? with
      | some (.table origin inner) =>
        (reach? change path inner).map fun inner =>
          replace name (.tables (items.dropLast ++ [.table origin inner])) members
      | _ => none
    | some _ => none

/-- Opens a table by its header. -/
def declare? (name : String) (members : Members) : Option Members :=
  match members.lookup name with
  | none => some (members ++ [(name, .table .header [])])
  | some (.table .implied inner) => some (replace name (.table .header inner) members)
  | some _ => none

/-- Adds a table to the repeated tables of a name. -/
def append? (name : String) (members : Members) : Option Members :=
  match members.lookup name with
  | none => some (members ++ [(name, .tables [.table .header []])])
  | some (.tables items) => some (replace name (.tables (items ++ [.table .header []])) members)
  | some _ => none

/-- Opens a table below the one that all names of a path but the last lead to. -/
def open? (opening : String → Members → Option Members) (path : List String)
    (members : Members) : Option Members :=
  match path.getLast? with
  | some name => reach? (opening name) path.dropLast members
  | none => none

end CompilerRemarks.Toml
