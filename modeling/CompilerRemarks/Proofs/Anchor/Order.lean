/-
  CompilerRemarks.Proofs.Anchor.Order

  Sorting anchors puts them in order of their ranges (`pairwise_sorted`),
  neither loses nor adds any (`sorted_perm`), and leaves those of one range
  as they were (`filter_sorted`).
-/
import CompilerRemarks.Anchor.Basic
import CompilerRemarks.Proofs.Source

namespace CompilerRemarks.Anchor

variable {a b : Anchor}

/-! ## The order -/

theorem le_iff : a.le b = true ↔
    a.range.first = b.range.first ∧ a.range.last.le b.range.last = true ∨
      a.range.first ≠ b.range.first ∧ a.range.first.le b.range.first = true := by
  by_cases h : a.range.first = b.range.first <;> simp [le, h]

theorem le_of_range_eq (h : a.range = b.range) : a.le b = true := by
  rw [le_iff, h]
  exact .inl ⟨rfl, Position.le_refl _⟩

theorem le_trans (a b c : Anchor) (hab : a.le b = true) (hbc : b.le c = true) :
    a.le c = true := by
  rw [le_iff] at hab hbc ⊢
  rcases hab with ⟨hfirst, hlast⟩ | ⟨hne, hle⟩
  · rcases hbc with ⟨hfirst', hlast'⟩ | ⟨hne', hle'⟩
    · exact .inl ⟨hfirst.trans hfirst', Position.le_trans hlast hlast'⟩
    · rw [hfirst]
      exact .inr ⟨hne', hle'⟩
  · rcases hbc with ⟨hfirst', -⟩ | ⟨-, hle'⟩
    · rw [← hfirst']
      exact .inr ⟨hne, hle⟩
    · -- were the outer starts the same, the middle one would be there too
      refine .inr ⟨fun hac => hne (Position.le_antisymm hle ?_), Position.le_trans hle hle'⟩
      rw [hac]
      exact hle'

theorem le_total (a b : Anchor) : (a.le b || b.le a) = true := by
  rw [Bool.or_eq_true, le_iff, le_iff]
  by_cases hfirst : a.range.first = b.range.first
  · exact (Position.le_total a.range.last b.range.last).imp
      (fun h => .inl ⟨hfirst, h⟩) (fun h => .inl ⟨hfirst.symm, h⟩)
  · exact (Position.le_total a.range.first b.range.first).imp
      (fun h => .inr ⟨hfirst, h⟩) (fun h => .inr ⟨Ne.symm hfirst, h⟩)

/-! ## Sorting -/

theorem sorted_perm (anchors : List Anchor) : (sorted anchors).Perm anchors :=
  List.mergeSort_perm anchors le

theorem pairwise_sorted (anchors : List Anchor) :
    (sorted anchors).Pairwise fun a b => a.le b = true :=
  List.pairwise_mergeSort le_trans le_total anchors

/-- Sorting is stable: the anchors of one range stay in their order. -/
theorem filter_sorted (anchors : List Anchor) (range : Range) :
    (sorted anchors).filter (·.range == range) = anchors.filter (·.range == range) := by
  have hpairwise : (anchors.filter (·.range == range)).Pairwise fun a b => a.le b = true := by
    refine List.pairwise_of_forall_mem_list fun a ha b hb => le_of_range_eq ?_
    rw [beq_iff_eq.mp (List.mem_filter.mp ha).2, beq_iff_eq.mp (List.mem_filter.mp hb).2]
  have hsublist := List.sublist_mergeSort le_trans le_total hpairwise
    List.filter_sublist
  have hfiltered := hsublist.filter (·.range == range)
  rw [List.filter_filter, funext fun a : Anchor => Bool.and_self (a.range == range)] at hfiltered
  exact (hfiltered.eq_of_length ((sorted_perm anchors).filter _).length_eq.symm).symm

end CompilerRemarks.Anchor
