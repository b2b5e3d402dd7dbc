/-
  CompilerRemarks.Proofs.Text.Blank

  Trimming takes blanks off the ends of a text and nothing else, so what it
  leaves is the part between two runs of blanks (`trimEnd_eq_iff`,
  `trim_eq_iff`).
-/
import CompilerRemarks.Text.Blank

namespace CompilerRemarks.Text

variable {s gap core : List Char}

/-! ## The start -/

theorem trimStart_append_of_blank (hgap : ∀ c ∈ gap, isBlank c = true) (s : List Char) :
    trimStart (gap ++ s) = trimStart s :=
  List.dropWhile_append_of_pos hgap

theorem trimStart_of_head (h : ∀ c ∈ s.head?, isBlank c = false) : trimStart s = s := by
  cases s with
  | nil => rfl
  | cons c rest =>
    have hc : isBlank c = false := h c rfl
    rw [trimStart, List.dropWhile_cons, hc, if_neg Bool.false_ne_true]

theorem exists_gap_trimStart (s : List Char) :
    ∃ gap, (∀ c ∈ gap, isBlank c = true) ∧ s = gap ++ trimStart s :=
  ⟨s.takeWhile isBlank, List.all_eq_true.mp List.all_takeWhile,
    List.takeWhile_append_dropWhile.symm⟩

/-! ## The end -/

theorem trimEnd_append_of_blank (s : List Char) (hgap : ∀ c ∈ gap, isBlank c = true) :
    trimEnd (s ++ gap) = trimEnd s := by
  have hreverse : ∀ c ∈ gap.reverse, isBlank c = true :=
    fun c hc => hgap c (List.mem_reverse.mp hc)
  rw [trimEnd, trimEnd, List.reverse_append, List.dropWhile_append_of_pos hreverse]

theorem trimEnd_of_getLast (h : ∀ c ∈ s.getLast?, isBlank c = false) : trimEnd s = s := by
  have hhead : ∀ c ∈ s.reverse.head?, isBlank c = false := by
    rw [List.head?_reverse]
    exact h
  have htrim := trimStart_of_head hhead
  rw [trimStart] at htrim
  rw [trimEnd, htrim, List.reverse_reverse]

theorem exists_gap_trimEnd (s : List Char) :
    ∃ gap, (∀ c ∈ gap, isBlank c = true) ∧ s = trimEnd s ++ gap := by
  obtain ⟨gap, hgap, hs⟩ := exists_gap_trimStart s.reverse
  refine ⟨gap.reverse, fun c hc => hgap c (List.mem_reverse.mp hc), ?_⟩
  rw [trimEnd, ← List.reverse_append, ← trimStart, ← hs, List.reverse_reverse]

/-! ## What is left -/

/-- Trimming the end leaves a text that ends in no blank just of that text
    with blanks behind it. -/
theorem trimEnd_eq_iff (hlast : ∀ c ∈ core.getLast?, isBlank c = false) :
    trimEnd s = core ↔ ∃ gap, (∀ c ∈ gap, isBlank c = true) ∧ s = core ++ gap := by
  constructor
  · rintro rfl
    exact exists_gap_trimEnd s
  · rintro ⟨gap, hgap, rfl⟩
    rw [trimEnd_append_of_blank core hgap, trimEnd_of_getLast hlast]

/-- Trimming leaves a text with no blank at either end just of that text with
    blanks around it. -/
theorem trim_eq_iff (hne : core ≠ []) (hfirst : ∀ c ∈ core.head?, isBlank c = false)
    (hlast : ∀ c ∈ core.getLast?, isBlank c = false) :
    trim s = core ↔ ∃ gap gap', (∀ c ∈ gap, isBlank c = true) ∧ (∀ c ∈ gap', isBlank c = true) ∧
      s = gap ++ (core ++ gap') := by
  constructor
  · intro h
    obtain ⟨gap, hgap, hs⟩ := exists_gap_trimStart s
    obtain ⟨gap', hgap', hrest⟩ := (trimEnd_eq_iff hlast).mp h
    exact ⟨gap, gap', hgap, hgap', by rw [hs, hrest]⟩
  · rintro ⟨gap, gap', hgap, hgap', rfl⟩
    have hhead : ∀ c ∈ (core ++ gap').head?, isBlank c = false := by
      obtain ⟨c, rest, rfl⟩ := List.exists_cons_of_ne_nil hne
      exact hfirst
    rw [trim, trimStart_append_of_blank hgap, trimStart_of_head hhead,
      trimEnd_append_of_blank core hgap', trimEnd_of_getLast hlast]

end CompilerRemarks.Text
