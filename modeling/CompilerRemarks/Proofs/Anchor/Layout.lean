/-
  CompilerRemarks.Proofs.Anchor.Layout

  Offsets and positions. A closing bracket stands behind the bracket that it
  closes (`matching?_eq_some`), a byte that is looked for stands at or behind
  the offset from which it is (`findByte?_eq_some`).

  The position of an offset tells the line feeds before it and the bytes
  since the last one (`isPositionOf_positionOf`). From one offset to a later
  one it moves on to a later line, or along the same line with every byte
  (`IsPositionOf.advance`), so positions are in the order of their offsets
  (`IsPositionOf.le`, `IsPositionOf.key_lt`).
-/
import CompilerRemarks.Anchor.Layout
import CompilerRemarks.Proofs.Source
import CompilerRemarks.Proofs.Text.Cut

namespace CompilerRemarks.Anchor

variable {bytes : List UInt8}

/-! ## Brackets -/

theorem getElem?_closingFrom {left right : UInt8} {depth i : Nat}
    (h : closingFrom left right depth bytes = some i) : bytes[i]? = some right := by
  induction bytes generalizing depth i with
  | nil => exact absurd h (by simp [closingFrom])
  | cons b rest ih =>
    -- in every case but one the answer is that of the rest, one byte on
    have hlater : ∀ d, (closingFrom left right d rest).map (· + 1) = some i →
        (b :: rest)[i]? = some right := by
      intro d hd
      obtain ⟨j, hj, rfl⟩ := Option.map_eq_some_iff.mp hd
      rw [List.getElem?_cons_succ]
      exact ih hj
    rw [closingFrom] at h
    split at h
    · exact hlater _ h
    · split at h
      · rename_i hright
        split at h
        · cases h
          rw [List.getElem?_cons_zero, beq_iff_eq.mp hright]
        · exact hlater _ h
      · exact hlater _ h

/-- The walk goes on behind the bracket that is to be closed, with that one open. -/
theorem matching?_of_left {left right : UInt8} {start : Nat} (h : bytes[start]? = some left) :
    matching? bytes start left right =
      (closingFrom left right 1 (bytes.drop (start + 1))).map (start + 1 + ·) := by
  obtain ⟨hlt, hget⟩ := List.getElem?_eq_some_iff.mp h
  have hopen : closingFrom left right 0 (bytes.drop start) =
      (closingFrom left right 1 (bytes.drop (start + 1))).map (· + 1) := by
    rw [List.drop_eq_getElem_cons hlt, hget, closingFrom, if_pos BEq.rfl]
  rw [matching?, if_pos (beq_iff_eq.mpr h), hopen, Option.map_map]
  congr 1
  funext k
  show start + (k + 1) = start + 1 + k
  omega

/-- The bracket that closes the one at an offset stands behind it. -/
theorem matching?_eq_some {left right : UInt8} (hne : left ≠ right) {start i : Nat}
    (h : matching? bytes start left right = some i) :
    start < i ∧ bytes[start]? = some left ∧ bytes[i]? = some right := by
  rw [matching?] at h
  split at h
  · rename_i hleft
    have hstart : bytes[start]? = some left := beq_iff_eq.mp hleft
    obtain ⟨k, hk, rfl⟩ := Option.map_eq_some_iff.mp h
    have hright := getElem?_closingFrom hk
    rw [List.getElem?_drop] at hright
    refine ⟨?_, hstart, hright⟩
    rcases Nat.eq_zero_or_pos k with rfl | hpos
    · rw [Nat.add_zero, hstart, Option.some_inj] at hright
      exact absurd hright hne
    · omega
  · cases h

/-! ## Bytes -/

theorem findByte?_eq_some {start i : Nat} {p : UInt8 → Bool} {b : UInt8}
    (h : findByte? bytes start p = some (i, b)) :
    start ≤ i ∧ bytes[i]? = some b ∧ p b = true := by
  rw [findByte?] at h
  generalize hskipped : (bytes.drop start).takeWhile (!p ·) = skipped at h
  have hsplit : bytes.drop start = skipped ++ (bytes.drop start).dropWhile (!p ·) := by
    rw [← hskipped, List.takeWhile_append_dropWhile]
  rw [hsplit, List.drop_left] at h
  split at h
  · rename_i x rest hrest
    cases h
    refine ⟨Nat.le_add_right _ _, ?_, ?_⟩
    · rw [← List.getElem?_drop, hsplit, List.getElem?_append_right (Nat.le_refl _), hrest,
        Nat.sub_self, List.getElem?_cons_zero]
    · have hfirst := List.head?_dropWhile_not (!p ·) (bytes.drop start)
      rw [hrest] at hfirst
      simpa using hfirst
  · cases h

/-! ## Lines -/

theorem lt_of_mem_laterStarts {start x : Nat} (h : x ∈ laterStarts start bytes) : start < x := by
  induction bytes generalizing start with
  | nil => exact absurd h List.not_mem_nil
  | cons b rest ih =>
    rw [laterStarts] at h
    split at h
    · rcases List.mem_cons.mp h with rfl | hrest
      · omega
      · have := ih hrest
        omega
    · have := ih h
      omega

/-- The lines that start up to an offset are those of the bytes before it. -/
theorem takeWhile_laterStarts (bytes : List UInt8) (start n : Nat) :
    (laterStarts start bytes).takeWhile (· ≤ start + n) = laterStarts start (bytes.take n) := by
  induction bytes generalizing start n with
  | nil => simp [laterStarts]
  | cons b rest ih =>
    cases n with
    | zero =>
      rw [List.take_zero, laterStarts]
      cases hstarts : laterStarts start (b :: rest) with
      | nil => rfl
      | cons x more =>
        have hlt : start < x := lt_of_mem_laterStarts (hstarts ▸ List.mem_cons_self)
        exact List.takeWhile_cons_of_neg (by simpa using hlt)
    | succ n =>
      have hrest := ih (start + 1) n
      rw [show start + 1 + n = start + (n + 1) by omega] at hrest
      rw [List.take_succ_cons, laterStarts, laterStarts]
      split
      · rw [List.takeWhile_cons_of_pos (by simp), hrest]
      · exact hrest

theorem takeWhile_lineStarts (bytes : List UInt8) (offset : Nat) :
    (lineStarts bytes).takeWhile (· ≤ offset) = lineStarts (bytes.take offset) := by
  have h := takeWhile_laterStarts bytes 0 offset
  rw [Nat.zero_add] at h
  rw [lineStarts, List.takeWhile_cons_of_pos (by simp), h, lineStarts]

theorem length_laterStarts (bytes : List UInt8) (start : Nat) :
    (laterStarts start bytes).length = bytes.count 0x0A := by
  induction bytes generalizing start with
  | nil => rfl
  | cons b rest ih =>
    rw [laterStarts, List.count_cons]
    split
    · rw [List.length_cons, ih]
    · rw [ih, Nat.add_zero]

theorem laterStarts_append (xs ys : List UInt8) (start : Nat) :
    laterStarts start (xs ++ ys) = laterStarts start xs ++ laterStarts (start + xs.length) ys := by
  induction xs generalizing start with
  | nil => rfl
  | cons b rest ih =>
    rw [List.cons_append, laterStarts, laterStarts, ih, List.length_cons,
      show start + 1 + rest.length = start + (rest.length + 1) by omega]
    split <;> rfl

theorem laterStarts_of_not_mem (h : 0x0A ∉ bytes) (start : Nat) :
    laterStarts start bytes = [] := by
  have hcount := length_laterStarts bytes start
  rw [List.count_eq_zero_of_not_mem h] at hcount
  exact List.length_eq_zero_iff.mp hcount

/-- The last line starts where what follows the last line feed does. -/
theorem getLast?_laterStarts (bytes : List UInt8) (start : Nat) :
    (start :: laterStarts start bytes).getLast?.getD 0 + (Text.leftover 0x0A bytes).length =
      start + bytes.length := by
  -- line by line: after a line feed the count goes on from the next line
  induction bytes using Text.cut_induction (0x0A : UInt8) generalizing start with
  | rest xs hxs =>
    rw [laterStarts_of_not_mem hxs, Text.leftover_of_not_mem hxs]
    rfl
  | part xs ys hxs ih =>
    have hlater : laterStarts start (xs ++ 0x0A :: ys) =
        (start + xs.length + 1) :: laterStarts (start + xs.length + 1) ys := by
      rw [laterStarts_append, laterStarts_of_not_mem hxs, List.nil_append, laterStarts]
      rfl
    have hys := ih (start + xs.length + 1)
    rw [hlater, Text.leftover_append_cons, List.getLast?_cons_cons, hys, List.length_append,
      List.length_cons]
    omega

/-! ## Positions -/

theorem toNat_clampWord {n : Nat} (h : n < UInt32.size) : (clampWord n).toNat = n := by
  rw [clampWord, if_pos h, Nat.toUInt32_eq, UInt32.toNat_ofNat_of_lt' h]

/-- The line of an offset is told by the line feeds before it, and the column
    by the bytes since the last one. -/
theorem positionOf_lineStarts {offset : Nat} (h : offset ≤ bytes.length) :
    positionOf (lineStarts bytes) offset =
      ⟨clampWord ((bytes.take offset).count 0x0A + 1),
        clampWord ((Text.leftover 0x0A (bytes.take offset)).length + 1)⟩ := by
  have hlast := getLast?_laterStarts (bytes.take offset) 0
  rw [List.length_take_of_le h, Nat.zero_add] at hlast
  rw [positionOf, takeWhile_lineStarts, lineStarts, List.length_cons, length_laterStarts]
  congr 2
  omega

/-- The line and the column of an offset, both counted from one: the line feeds
    before it, and the bytes since the last of them. -/
structure IsPositionOf (bytes : List UInt8) (offset : Nat) (p : Position) : Prop where
  line_eq : p.line.toNat = (bytes.take offset).count 0x0A + 1
  column_eq : p.column.toNat = (Text.leftover 0x0A (bytes.take offset)).length + 1

/-- No position is cut off as long as words count the bytes before it. -/
theorem isPositionOf_of_le {offset : Nat} (h : offset ≤ bytes.length)
    (hfits : offset + 1 < UInt32.size) :
    IsPositionOf bytes offset (positionOf (lineStarts bytes) offset) := by
  have htake : (bytes.take offset).length = offset := List.length_take_of_le h
  have hline : (bytes.take offset).count 0x0A ≤ (bytes.take offset).length :=
    List.count_le_length
  have hcolumn := getLast?_laterStarts (bytes.take offset) 0
  rw [positionOf_lineStarts h]
  exact ⟨toNat_clampWord (by omega), toNat_clampWord (by omega)⟩

/-- In a text of less than 2^32 bytes, no position of a byte is cut off. -/
theorem isPositionOf_positionOf {offset : Nat} (h : offset < bytes.length)
    (hsize : bytes.length < UInt32.size) :
    IsPositionOf bytes offset (positionOf (lineStarts bytes) offset) :=
  isPositionOf_of_le (Nat.le_of_lt h) (by omega)

/-- From one offset to a later one, the line goes up, or it stays and the column
    goes up with every byte. -/
theorem IsPositionOf.advance {i j : Nat} {p q : Position} (hp : IsPositionOf bytes i p)
    (hq : IsPositionOf bytes j q) (hij : i ≤ j) :
    p.line.toNat < q.line.toNat ∨
      p.line.toNat = q.line.toNat ∧
        q.column.toNat + (bytes.take i).length = p.column.toNat + (bytes.take j).length := by
  -- the later offset has the bytes before the earlier one before it, and some more
  obtain ⟨more, hmore⟩ := List.take_prefix_take_left (l := bytes) hij
  have hcount : (bytes.take j).count 0x0A = (bytes.take i).count 0x0A + more.count 0x0A := by
    rw [← hmore, List.count_append]
  have hlength : (bytes.take j).length = (bytes.take i).length + more.length := by
    rw [← hmore, List.length_append]
  rw [hp.line_eq, hq.line_eq, hp.column_eq, hq.column_eq, hcount, hlength]
  by_cases hfeed : (0x0A : UInt8) ∈ more
  · have := List.count_pos_iff.mpr hfeed
    omega
  · -- on one line the column counts on
    have hleft : Text.leftover 0x0A (bytes.take j) = Text.leftover 0x0A (bytes.take i) ++ more := by
      rw [← hmore, Text.leftover_append, Text.leftover_of_not_mem]
      exact fun h => (List.mem_append.mp h).elim (Text.notMem_leftover _) hfeed
    rw [hleft, List.length_append, List.count_eq_zero_of_not_mem hfeed]
    omega

/-- Positions are in the order of their offsets. -/
theorem IsPositionOf.le {i j : Nat} {p q : Position} (hp : IsPositionOf bytes i p)
    (hq : IsPositionOf bytes j q) (hij : i ≤ j) : p.le q = true := by
  have hlength : (bytes.take i).length ≤ (bytes.take j).length :=
    (List.take_prefix_take_left hij).length_le
  have hadvance := hp.advance hq hij
  rw [Position.le_iff]
  omega

/-- The position of a later offset of the text is a later position. -/
theorem IsPositionOf.key_lt {i j : Nat} {p q : Position} (hp : IsPositionOf bytes i p)
    (hq : IsPositionOf bytes j q) (hij : i < j) (hj : j ≤ bytes.length) : p.key < q.key := by
  have hfirst : (bytes.take i).length = i := List.length_take_of_le (by omega)
  have hlast : (bytes.take j).length = j := List.length_take_of_le hj
  have hadvance := hp.advance hq (Nat.le_of_lt hij)
  rw [Position.key, Position.key, Prod.Lex.toLex_lt_toLex]
  show p.line.toNat < q.line.toNat ∨
    p.line.toNat = q.line.toNat ∧ p.column.toNat < q.column.toNat
  omega

end CompilerRemarks.Anchor
