/-
  CompilerRemarks.Proofs.Anchor.Positions

  Offsets and positions correspond one to one (`positions_tell_offsets`). The
  line of an offset is found among the starts of the lines, where they pass
  the offset (`isCut_lineStarts`), and that counts the line feeds before it.
  The column counts the bytes from the start of the line on
  (`StartsLine.leftover_eq`). From one offset to the next, the position
  moves on (`IsPositionOf.key_lt`).
-/
import Mathlib.Order.Interval.Set.Defs
import Mathlib.Order.Monotone.Defs
import CompilerRemarks.Proofs.Anchor.Layout

namespace CompilerRemarks.Anchor

variable {bytes : List UInt8} {first offset : Nat}

/-! ## Lines -/

/-- The line of an offset starts here: at the start of the text or behind a line
    feed, with no other line feed up to the offset. -/
structure StartsLine (bytes : List UInt8) (first offset : Nat) : Prop where
  le : first ≤ offset
  starts : first = 0 ∨ bytes[first - 1]? = some 0x0A
  no_feed : 0x0A ∉ bytes.extract first offset

theorem exists_startsLine (h : offset ≤ bytes.length) : ∃ first, StartsLine bytes first offset := by
  induction offset with
  | zero => exact ⟨0, Nat.le_refl 0, .inl rfl, by simp⟩
  | succ offset ih =>
    obtain ⟨first, hle, hstarts, hfree⟩ := ih (by omega)
    have hb : bytes[offset]? = some bytes[offset] := List.getElem?_eq_getElem h
    by_cases hfeed : bytes[offset] = 0x0A
    · -- behind a line feed the next line starts
      exact ⟨offset + 1, Nat.le_refl _, .inr (by rw [Nat.add_sub_cancel, hb, hfeed]), by simp⟩
    · refine ⟨first, by omega, hstarts, ?_⟩
      have hmore : bytes.extract first (offset + 1) =
          bytes.extract first offset ++ [bytes[offset]] := by
        have hat : (bytes.drop first)[offset - first]? = some bytes[offset] := by
          rw [List.getElem?_drop, Nat.add_sub_cancel' hle, hb]
        rw [List.extract_eq_take_drop, Nat.sub_add_comm hle, List.take_add_one, hat]
        rfl
      rw [hmore, List.mem_append, List.mem_singleton]
      rintro (hmem | heq)
      · exact hfree hmem
      · exact hfeed heq.symm

/-- What follows the last line feed is the line up to the offset. -/
theorem StartsLine.leftover_eq (h : StartsLine bytes first offset) :
    Text.leftover 0x0A (bytes.take offset) = bytes.extract first offset := by
  have hsplit : bytes.take offset = bytes.take first ++ bytes.extract first offset := by
    rw [List.extract_eq_take_drop, ← List.take_add, Nat.add_sub_cancel' h.le]
  -- nothing is left over of the lines before this one
  have hbefore : Text.leftover (0x0A : UInt8) (bytes.take first) = [] := by
    rcases h.starts with rfl | hfeed
    · rfl
    · cases first with
      | zero => rfl
      | succ k =>
        rw [Nat.add_sub_cancel] at hfeed
        rw [List.take_add_one, hfeed]
        exact Text.leftover_append_cons (bytes.take k) []
  rw [hsplit, Text.leftover_append, hbefore, List.nil_append,
    Text.leftover_of_not_mem h.no_feed]

/-! ## The search for a line -/

/-- Up to the first `k` elements a list does not exceed a bound, and from there on
    it does. -/
structure IsCut (xs : List Nat) (bound k : Nat) : Prop where
  le_length : k ≤ xs.length
  before : ∀ x ∈ xs.take k, x ≤ bound
  behind : ∀ x ∈ xs.drop k, bound < x

/-- There is only one such place, whatever way it is searched for. -/
theorem IsCut.unique {xs : List Nat} {bound j k : Nat} (hj : IsCut xs bound j)
    (hk : IsCut xs bound k) : j = k := by
  -- an element between two of them would be on both sides of the bound
  have hle : ∀ {j k}, IsCut xs bound j → IsCut xs bound k → k ≤ j := by
    intro j k hj hk
    by_contra hlt
    have hlength : j < xs.length := by
      have := hk.le_length
      omega
    have hbehind : xs[j] ∈ xs.drop j := by
      rw [List.drop_eq_getElem_cons hlength]
      exact List.mem_cons_self
    have hbefore : xs[j] ∈ xs.take k :=
      List.mem_iff_getElem?.mpr ⟨j, by
        rw [List.getElem?_take_of_lt (by omega), List.getElem?_eq_getElem hlength]⟩
    have := hj.behind _ hbehind
    have := hk.before _ hbefore
    omega
  exact Nat.le_antisymm (hle hk hj) (hle hj hk)

/-- The starts of the lines pass an offset behind those of the bytes before it. -/
theorem isCut_lineStarts (h : offset ≤ bytes.length) :
    IsCut (lineStarts bytes) offset ((bytes.take offset).count 0x0A + 1) := by
  have hlength : (lineStarts (bytes.take offset)).length = (bytes.take offset).count 0x0A + 1 := by
    rw [lineStarts, List.length_cons, length_laterStarts]
  have hsplit : lineStarts bytes =
      lineStarts (bytes.take offset) ++ laterStarts offset (bytes.drop offset) := by
    have happend := laterStarts_append (bytes.take offset) (bytes.drop offset) 0
    rw [List.take_append_drop, List.length_take_of_le h, Nat.zero_add] at happend
    rw [lineStarts, happend, lineStarts, List.cons_append]
  rw [← hlength, hsplit]
  refine ⟨?_, ?_, ?_⟩
  · rw [List.length_append]
    omega
  · rw [List.take_left, ← takeWhile_lineStarts]
    intro x hx
    simpa using List.all_eq_true.mp List.all_takeWhile x hx
  · rw [List.drop_left]
    intro x hx
    exact lt_of_mem_laterStarts hx

/-! ## Positions -/

/-- The offsets of a text, its end included, that words can count the bytes up to. -/
def offsets (bytes : List UInt8) : Set Nat :=
  {offset | offset ≤ bytes.length ∧ offset + 1 < UInt32.size}

/-- In a text of less than 2^32 bytes these are the offsets of all its bytes. -/
theorem Iio_subset_offsets (hsize : bytes.length < UInt32.size) :
    Set.Iio bytes.length ⊆ offsets bytes := by
  intro offset hoffset
  have hlt : offset < bytes.length := hoffset
  exact ⟨by omega, by omega⟩

theorem isPositionOf_of_mem (h : offset ∈ offsets bytes) :
    IsPositionOf bytes offset (positionOf (lineStarts bytes) offset) :=
  isPositionOf_of_le h.1 h.2

theorem strictMonoOn_positionOf (bytes : List UInt8) :
    StrictMonoOn (fun offset => (positionOf (lineStarts bytes) offset).key) (offsets bytes) := by
  intro i hi j hj hij
  exact (isPositionOf_of_mem hi).key_lt (isPositionOf_of_mem hj) hij hj.1

/-- In a text of less than 2^32 bytes, the line of an offset is one more than the
    line feeds before it, which any search for the place where the starts of the
    lines pass the offset finds, and the column is one more than the bytes from the
    start of that line to the offset. Later offsets have later positions, and no
    two offsets have the same. -/
theorem positions_tell_offsets (bytes : List UInt8) (hsize : bytes.length < UInt32.size) :
    Set.Iio bytes.length ⊆ offsets bytes ∧
    (∀ offset ∈ offsets bytes,
      let p := positionOf (lineStarts bytes) offset
      p.line.toNat = 1 + (bytes.take offset).count 0x0A ∧
      (∀ k, IsCut (lineStarts bytes) offset k ↔ k = p.line.toNat) ∧
      ∃ first, StartsLine bytes first offset ∧
        p.column.toNat = 1 + (bytes.extract first offset).length) ∧
    StrictMonoOn (fun offset => (positionOf (lineStarts bytes) offset).key) (offsets bytes) ∧
    Set.InjOn (positionOf (lineStarts bytes)) (offsets bytes) := by
  refine ⟨Iio_subset_offsets hsize, ?_, strictMonoOn_positionOf bytes, ?_⟩
  · intro offset hoffset p
    have hposition : IsPositionOf bytes offset p := isPositionOf_of_mem hoffset
    have hline : p.line.toNat = 1 + (bytes.take offset).count 0x0A := by
      rw [hposition.line_eq, Nat.add_comm]
    refine ⟨hline, fun k => ?_, ?_⟩
    · have hcut : IsCut (lineStarts bytes) offset p.line.toNat := by
        rw [hposition.line_eq]
        exact isCut_lineStarts hoffset.1
      constructor
      · intro hk
        exact hk.unique hcut
      · rintro rfl
        exact hcut
    · obtain ⟨first, hfirst⟩ := exists_startsLine hoffset.1
      refine ⟨first, hfirst, ?_⟩
      rw [hposition.column_eq, hfirst.leftover_eq, Nat.add_comm]
  · -- of two offsets, the later one has the later position
    intro i hi j hj heq
    exact (strictMonoOn_positionOf bytes).injOn hi hj (congrArg Position.key heq)

/-- A line feed belongs to the line that it ends; the byte behind it starts the
    next one. -/
theorem positions_tell_offsets_two_lines :
    let bytes : List UInt8 := [0x61, 0x0A, 0x62, 0x0A]
    let p : Position := ⟨1, 2⟩
    let q : Position := ⟨2, 1⟩
    bytes.length < UInt32.size ∧ 1 < bytes.length ∧ 2 < bytes.length ∧
    positionOf (lineStarts bytes) 1 = p ∧ positionOf (lineStarts bytes) 2 = q ∧
    p.line.toNat = 1 + (bytes.take 1).count 0x0A ∧
    q.line.toNat = 1 + (bytes.take 2).count 0x0A ∧
    IsCut (lineStarts bytes) 2 2 ∧
    (∃ first, StartsLine bytes first 1 ∧ p.column.toNat = 1 + (bytes.extract first 1).length) ∧
    p.key < q.key ∧ p ≠ q := by
  intro bytes p q
  have hsize : bytes.length < UInt32.size := by decide
  obtain ⟨hinside, htold, hmono, hinj⟩ := positions_tell_offsets bytes hsize
  have hone : 1 ∈ offsets bytes := hinside (show 1 < bytes.length by decide)
  have htwo : 2 ∈ offsets bytes := hinside (show 2 < bytes.length by decide)
  have hp : positionOf (lineStarts bytes) 1 = p := by decide
  have hq : positionOf (lineStarts bytes) 2 = q := by decide
  obtain ⟨hline, -, hcolumn⟩ := htold 1 hone
  obtain ⟨hline', hcut, -⟩ := htold 2 htwo
  have hlt := hmono hone htwo (show 1 < 2 by decide)
  rw [hp] at hline hcolumn
  rw [hq] at hline' hcut
  dsimp only at hlt
  rw [hp, hq] at hlt
  refine ⟨hsize, by decide, by decide, hp, hq, hline, hline', (hcut 2).mpr rfl, hcolumn,
    hlt, ?_⟩
  intro heq
  exact absurd (hinj hone htwo (hp.trans (heq.trans hq.symm))) (by decide)

end CompilerRemarks.Anchor
