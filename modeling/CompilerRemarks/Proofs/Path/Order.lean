/-
  CompilerRemarks.Proofs.Path.Order

  The order of paths is the lexicographic order of their keys (`le_iff`): one
  key for each component, its kind before its name. Different components have
  different keys, and so the order is transitive and total (`le_trans`,
  `le_total`), as sorting needs it.
-/
import Mathlib.Data.Char
import Mathlib.Data.List.Lex
import Mathlib.Data.Prod.Lex
import CompilerRemarks.Path.Basic

namespace CompilerRemarks.Path

/-! ## Names

The linear order of lists has a `≤` of its own, to which `List.nil_le` and
`List.cons_le_cons_iff` do not apply. -/

theorem nil_le {α : Type} [LinearOrder α] (s : List α) : [] ≤ s :=
  not_lt.mp (List.not_lt_nil s)

theorem cons_le_cons_iff {α : Type} [LinearOrder α] {a b : α} {s t : List α} :
    a :: s ≤ b :: t ↔ a < b ∨ a = b ∧ s ≤ t := by
  rw [← not_lt, ← not_lt, List.cons_lt_cons_iff, not_or, not_and, not_lt, le_iff_lt_or_eq]
  constructor
  · rintro ⟨hlt | rfl, hrest⟩
    · exact .inl hlt
    · exact .inr ⟨rfl, hrest rfl⟩
  · rintro (hlt | ⟨rfl, hrest⟩)
    · exact ⟨.inl hlt, fun heq => absurd heq hlt.ne'⟩
    · exact ⟨.inr rfl, fun _ => hrest⟩

theorem charsLe_iff (s t : List Char) : charsLe s t = true ↔ s ≤ t := by
  induction s generalizing t with
  | nil => simp [charsLe, nil_le]
  | cons a s ih =>
    cases t with
    | nil => simp [charsLe]
    | cons b t =>
      rw [charsLe, cons_le_cons_iff]
      by_cases hab : a = b
      · simp [hab, ih]
      · have hlt : a.toNat < b.toNat ↔ a < b := Iff.rfl
        simp [hab, hlt]

/-! ## Components -/

/-- The place of a component in the order: its kind, then its name. -/
def Component.key : Component → ℕ ×ₗ List Char
  | .name s => toLex (3, s)
  | c => toLex (c.rank, [])

theorem Component.key_injective : Function.Injective Component.key := by
  intro c d h
  cases c <;> cases d <;> simp_all [key, rank]

theorem Component.le_iff (c d : Component) : c.le d = true ↔ c.key ≤ d.key := by
  cases c <;> cases d <;> simp [Component.le, key, rank, Prod.Lex.toLex_le_toLex, charsLe_iff]

/-! ## Paths -/

theorem componentsLe_iff (cs ds : List Component) :
    componentsLe cs ds = true ↔ cs.map Component.key ≤ ds.map Component.key := by
  induction cs generalizing ds with
  | nil => simp [componentsLe, nil_le]
  | cons c cs ih =>
    cases ds with
    | nil => simp [componentsLe]
    | cons d ds =>
      rw [componentsLe, List.map_cons, List.map_cons, cons_le_cons_iff]
      by_cases hcd : c = d
      · simp [hcd, ih]
      · have hkey : c.key ≠ d.key := fun heq => hcd (Component.key_injective heq)
        simp [hcd, hkey, Component.le_iff, hkey.le_iff_lt]

/-- The place of a path in the order. -/
def key (p : Path) : List (ℕ ×ₗ List Char) :=
  p.components.map Component.key

theorem le_iff (p q : Path) : p.le q = true ↔ p.key ≤ q.key :=
  componentsLe_iff p.components q.components

theorem le_trans (p q r : Path) (hpq : p.le q = true) (hqr : q.le r = true) : p.le r = true := by
  rw [le_iff] at hpq hqr ⊢
  exact hpq.trans hqr

theorem le_total (p q : Path) : (p.le q || q.le p) = true := by
  rw [Bool.or_eq_true, le_iff, le_iff]
  exact Std.le_total

end CompilerRemarks.Path
