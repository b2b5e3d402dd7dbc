/-
  CompilerRemarks.Proofs.Text.Cut

  Cutting a list after each separator. Cutting loses nothing and adds nothing
  (`flatten_cut_append_leftover`), and a list may be cut as it grows: what was
  left over is all that matters for what follows (`cut_append`).
-/
import CompilerRemarks.Text.Cut

namespace CompilerRemarks.Text

variable {α : Type} [BEq α] [LawfulBEq α] {sep : α}

/-! ## At a separator -/

theorem cut_append_cons (xs ys : List α) :
    cut sep (xs ++ sep :: ys) = cut sep xs ++ (leftover sep xs ++ [sep]) :: cut sep ys := by
  have hxs := List.splitOn_ne_nil sep xs
  have hys := List.splitOn_ne_nil sep ys
  have hcut : (xs.splitOn sep).map (· ++ [sep]) = cut sep xs ++ [leftover sep xs ++ [sep]] := by
    conv => lhs; rw [← List.dropLast_concat_getLast hxs]
    rw [List.map_append]
    rfl
  rw [cut, List.splitOn_append_cons_self, List.dropLast_append_of_ne_nil hys, List.map_append,
    hcut, List.append_assoc]
  rfl

theorem leftover_append_cons (xs ys : List α) :
    leftover sep (xs ++ sep :: ys) = leftover sep ys := by
  simp only [leftover, List.splitOn_append_cons_self]
  exact List.getLast_append_of_ne_nil _ (List.splitOn_ne_nil sep ys)

theorem cut_of_not_mem {xs : List α} (h : sep ∉ xs) : cut sep xs = [] := by
  rw [cut, List.splitOn_eq_singleton h]
  rfl

theorem leftover_of_not_mem {xs : List α} (h : sep ∉ xs) : leftover sep xs = xs := by
  simp only [leftover, List.splitOn_eq_singleton h, List.getLast_singleton]

theorem cut_cons {xs : List α} (h : sep ∉ xs) (ys : List α) :
    cut sep (xs ++ sep :: ys) = (xs ++ [sep]) :: cut sep ys := by
  rw [cut_append_cons, cut_of_not_mem h, leftover_of_not_mem h, List.nil_append]

/-! ## Part by part -/

/-- Induction over a list, one part after the other. -/
theorem cut_induction (sep : α) {P : List α → Prop}
    (rest : ∀ xs, sep ∉ xs → P xs)
    (part : ∀ xs ys, sep ∉ xs → P ys → P (xs ++ sep :: ys)) :
    ∀ xs, P xs := by
  intro xs
  induction h : xs.length using Nat.strongRecOn generalizing xs with
  | ind n ih =>
    by_cases hmem : sep ∈ xs
    -- cut after the first separator; what follows is shorter
    · obtain ⟨ys, zs, rfl, hys⟩ := List.eq_append_cons_of_mem hmem
      have hlt : zs.length < n := by
        rw [← h, List.length_append, List.length_cons]
        omega
      exact part ys zs hys (ih zs.length hlt zs rfl)
    · exact rest xs hmem

theorem flatten_cut_append_leftover (xs : List α) :
    (cut sep xs).flatten ++ leftover sep xs = xs := by
  induction xs using cut_induction sep with
  | rest xs h => rw [cut_of_not_mem h, leftover_of_not_mem h, List.flatten_nil, List.nil_append]
  | part xs ys h ih =>
    rw [cut_cons h, leftover_append_cons, List.flatten_cons, List.append_assoc, ih,
      List.append_assoc, List.singleton_append]

theorem exists_of_mem_cut {xs part : List α} (h : part ∈ cut sep xs) :
    ∃ body, sep ∉ body ∧ part = body ++ [sep] := by
  induction xs using cut_induction sep with
  | rest xs hxs => rw [cut_of_not_mem hxs] at h; exact absurd h List.not_mem_nil
  | part xs ys hxs ih =>
    rw [cut_cons hxs] at h
    rcases List.mem_cons.mp h with rfl | hys
    · exact ⟨xs, hxs, rfl⟩
    · exact ih hys

theorem notMem_leftover (xs : List α) : sep ∉ leftover sep xs := by
  induction xs using cut_induction sep with
  | rest xs h => rwa [leftover_of_not_mem h]
  | part xs ys h ih => rwa [leftover_append_cons]

/-! ## A list that grows -/

/-- What was left over is cut together with what follows. -/
theorem cut_append (xs ys : List α) :
    cut sep (xs ++ ys) = cut sep xs ++ cut sep (leftover sep xs ++ ys) := by
  induction xs using cut_induction sep with
  | rest xs h => rw [cut_of_not_mem h, leftover_of_not_mem h, List.nil_append]
  | part xs zs h ih =>
    rw [List.append_assoc, List.cons_append, cut_cons h, cut_cons h, leftover_append_cons, ih,
      List.cons_append]

theorem leftover_append (xs ys : List α) :
    leftover sep (xs ++ ys) = leftover sep (leftover sep xs ++ ys) := by
  induction xs using cut_induction sep with
  | rest xs h => rw [leftover_of_not_mem h]
  | part xs zs h ih =>
    rw [List.append_assoc, List.cons_append, leftover_append_cons, leftover_append_cons, ih]

end CompilerRemarks.Text
