/-
  CompilerRemarks.Proofs.Source

  Positions are ordered by line and then by column, and this order is linear.
  It is the lexicographic order of pairs of numbers (`key`), and a range holds
  what lies between its ends in that order (`Range.contains_iff`).
-/
import Mathlib.Data.Prod.Lex
import CompilerRemarks.Source

namespace CompilerRemarks

namespace Position

variable {p q r : Position}

/-- The order in terms of numbers. -/
theorem le_iff : p.le q = true ↔
    p.line.toNat < q.line.toNat ∨
      p.line.toNat = q.line.toNat ∧ p.column.toNat ≤ q.column.toNat := by
  simp [le, UInt32.lt_iff_toNat_lt, UInt32.le_iff_toNat_le, UInt32.toNat_inj]

theorem le_refl (p : Position) : p.le p = true :=
  le_iff.mpr (.inr ⟨rfl, Nat.le_refl _⟩)

theorem le_trans (hpq : p.le q = true) (hqr : q.le r = true) : p.le r = true := by
  rw [le_iff] at hpq hqr ⊢
  omega

theorem le_total (p q : Position) : p.le q = true ∨ q.le p = true := by
  rw [le_iff, le_iff]
  omega

theorem le_antisymm (hpq : p.le q = true) (hqp : q.le p = true) : p = q := by
  rw [le_iff] at hpq hqp
  have hline : p.line = q.line := UInt32.toNat_inj.mp (by omega)
  have hcolumn : p.column = q.column := UInt32.toNat_inj.mp (by omega)
  cases p
  cases q
  simp_all

/-! ## Pairs of numbers -/

/-- The line and the column as numbers, in lexicographic order. -/
def key (p : Position) : ℕ ×ₗ ℕ :=
  toLex (p.line.toNat, p.column.toNat)

theorem le_iff_key : p.le q = true ↔ p.key ≤ q.key := by
  rw [le_iff, key, key, Prod.Lex.toLex_le_toLex]

end Position

namespace Range

variable {r : Range} {p : Position}

theorem contains_iff : r.contains p = true ↔ r.first.key ≤ p.key ∧ p.key ≤ r.last.key := by
  rw [contains, Bool.and_eq_true, Position.le_iff_key, Position.le_iff_key]

theorem isInverted_iff : r.isInverted = true ↔ r.last.key < r.first.key := by
  rw [isInverted, Bool.not_eq_true', ← Bool.not_eq_true, Position.le_iff_key, not_le]

/-- A range of lines holds every column of each of its lines. -/
theorem contains_lines {a b : UInt32} :
    (lines a b).contains p = true ↔ a ≤ p.line ∧ p.line ≤ b := by
  have hcolumn := p.column.toNat_lt
  have hmax : maxWord.toNat = 4294967295 := rfl
  rw [contains, Bool.and_eq_true, Position.le_iff, Position.le_iff, UInt32.le_iff_toNat_le,
    UInt32.le_iff_toNat_le]
  simp only [lines, UInt32.toNat_zero, hmax]
  omega

end Range

end CompilerRemarks
