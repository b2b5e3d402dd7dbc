/-
  CompilerRemarks.Yaml.Value

  The values that a YAML document stands for. A mapping keeps its entries in
  order, and no two of its keys are the same.
-/
import CompilerRemarks.Decimal.Shortest

namespace CompilerRemarks.Yaml

/-- A number: an integer of 64 bits or a double. -/
inductive Number where
  /-- An integer from `0` to `2^64 - 1`. -/
  | natural (n : Nat)
  /-- The integer `-n`, from `-2^63` to `-1`. -/
  | negated (n : Nat)
  | double (x : Double)
  deriving DecidableEq, Repr

/-- Integers are the same when they are equal, doubles when they have one value. -/
def Number.same : Number → Number → Bool
  | .natural m, .natural n => m == n
  | .negated m, .negated n => m == n
  | .double x, .double y => x.same y
  | _, _ => false

/-- The text of a number. -/
def Number.text : Number → String
  | .natural n => Text.decimal n
  | .negated n => "-" ++ Text.decimal n
  | .double x => x.text

/-- The value of a node. -/
inductive Value where
  | null
  | bool (b : Bool)
  | number (n : Number)
  | string (s : String)
  | sequence (items : List Value)
  | mapping (entries : List (Value × Value))
  /-- A value with an application's own tag. -/
  | tagged (tag : String) (value : Value)
  deriving Repr

namespace Value

/-! ## Sameness -/

/-- A tag without its leading `!`, unless that is all there is. -/
def bareTag (tag : String) : String :=
  match tag.toList with
  | '!' :: c :: rest => String.ofList (c :: rest)
  | _ => tag

mutual

/-- Whether two values are the same as keys; the order of a mapping's entries
    does not count. -/
def same : Value → Value → Bool
  | .null, .null => true
  | .bool a, .bool b => a == b
  | .number m, .number n => m.same n
  | .string s, .string t => s == t
  | .sequence xs, .sequence ys => sameItems xs ys
  | .mapping xs, .mapping ys => xs.length == ys.length && sameEntries xs ys
  | .tagged s x, .tagged t y => bareTag s == bareTag t && same x y
  | _, _ => false

/-- Whether two lists have the same items in order. -/
def sameItems : List Value → List Value → Bool
  | [], [] => true
  | x :: xs, y :: ys => same x y && sameItems xs ys
  | _, _ => false

/-- Whether each entry of the first list has its counterpart in the second. -/
def sameEntries : List (Value × Value) → List (Value × Value) → Bool
  | [], _ => true
  | (k, v) :: rest, ys => ys.any (fun (k', v') => same k k' && same v v') && sameEntries rest ys

end

/-! ## Access -/

/-- The value under its tags. -/
def untagged : Value → Value
  | .tagged _ v => v.untagged
  | v => v

/-- The entries of a mapping, which may be tagged. -/
def mapping? (v : Value) : Option (List (Value × Value)) :=
  match v.untagged with
  | .mapping entries => some entries
  | _ => none

/-- The text of a string, which may be tagged. -/
def string? (v : Value) : Option String :=
  match v.untagged with
  | .string s => some s
  | _ => none

/-- The value under an untagged string key. -/
def lookup? (entries : List (Value × Value)) (key : String) : Option Value :=
  (entries.find? fun (k, _) => match k with
    | .string s => s == key
    | _ => false).map (·.2)

theorem lookup?_cons_of_ne {k v : Value} {key : String} (h : k ≠ .string key)
    (rest : List (Value × Value)) : lookup? ((k, v) :: rest) key = lookup? rest key := by
  cases k with
  | string s =>
    have hs : s ≠ key := fun hs => h (hs ▸ rfl)
    simp [lookup?, hs]
  | _ => simp [lookup?]

/-- The value under a string key of a mapping, which may be tagged. -/
def get? (v : Value) (key : String) : Option Value :=
  v.mapping?.bind (lookup? · key)

end Value

end CompilerRemarks.Yaml
