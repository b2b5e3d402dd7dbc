/-
  CompilerRemarks.Proofs.Remark.Grouping

  A query splits the remarks in its range by pass and loses none of them
  (`query_splits_by_pass`), and queries compose (`queries_compose`): a range
  of lines can be cut in two, and a query can be narrowed afterwards.

  The groups are built up remark by remark. After each of them they are what
  the list so far says they are: its passes in the order in which they first
  appear, each with the remarks that have it (`groupsOf`). One step keeps
  this (`insertGroup_groupsOf`), so a run of steps does (`foldl_insert`), and
  everything else is read off that list.
-/
import Mathlib.Algebra.GroupWithZero.Nat
import Mathlib.Data.List.Induction
import CompilerRemarks.Proofs.Source
import CompilerRemarks.Remark.Query

namespace CompilerRemarks

namespace Grouped

variable {r : Remark} {remarks : List Remark}

/-! ## First appearances -/

theorem eraseDups_concat (passes : List String) (pass : String) :
    (passes ++ [pass]).eraseDups =
      passes.eraseDups ++ if pass ∈ passes then [] else [pass] := by
  rw [List.eraseDups_append]
  split
  · rename_i hmem
    simp [List.removeAll, hmem]
  · rename_i hnot
    simp [List.removeAll, hnot, List.eraseDups_cons]

theorem nodup_eraseDups (passes : List String) : passes.eraseDups.Nodup := by
  induction passes using List.reverseRecOn with
  | nil => exact List.nodup_nil
  | append_singleton passes pass ih =>
    rw [eraseDups_concat]
    split
    · rwa [List.append_nil]
    · rename_i hnot
      rw [List.nodup_append]
      refine ⟨ih, List.pairwise_singleton _ pass, ?_⟩
      rintro other hother _ hpass rfl
      exact hnot (List.mem_singleton.mp hpass ▸ List.mem_eraseDups.mp hother)

/-! ## Groups -/

/-- The remarks of a list by pass: the passes in the order in which they first
    appear, each with the remarks that have it. -/
def groupsOf (remarks : List Remark) : List (String × List Remark) :=
  (remarks.map (·.pass)).eraseDups.map fun pass => (pass, remarks.filter (·.pass == pass))

/-- A remark of a known pass goes to the end of the group of that pass. -/
theorem insertGroup_of_mem {passes : List String} (hnodup : passes.Nodup) (h : r.pass ∈ passes)
    (group : String → List Remark) :
    insertGroup r (passes.map fun pass => (pass, group pass)) =
      passes.map fun pass => (pass, group pass ++ if r.pass == pass then [r] else []) := by
  induction passes with
  | nil => exact absurd h List.not_mem_nil
  | cons pass rest ih =>
    obtain ⟨hpass, hrest⟩ := List.nodup_cons.mp hnodup
    rw [List.map_cons, List.map_cons, insertGroup]
    by_cases heq : pass = r.pass
    · -- no later group has this pass
      have hlater : ∀ other ∈ rest, (r.pass == other) = false := by
        intro other hother
        rw [beq_eq_false_iff_ne]
        rintro rfl
        exact hpass (heq ▸ hother)
      have hsame :
          rest.map (fun other => (other, group other ++ if r.pass == other then [r] else [])) =
            rest.map fun other => (other, group other) := by
        refine List.map_congr_left fun other hother => ?_
        rw [hlater other hother, if_neg Bool.false_ne_true, List.append_nil]
      rw [if_pos (beq_iff_eq.mpr heq), hsame, if_pos (beq_iff_eq.mpr heq.symm)]
    · have hmem : r.pass ∈ rest := (List.mem_cons.mp h).resolve_left (Ne.symm heq)
      rw [if_neg (by simpa using heq), ih hrest hmem, if_neg (by simpa using Ne.symm heq),
        List.append_nil]

/-- A remark of a new pass gets a group at the end. -/
theorem insertGroup_of_not_mem {passes : List String} (h : r.pass ∉ passes)
    (group : String → List Remark) :
    insertGroup r (passes.map fun pass => (pass, group pass)) =
      passes.map (fun pass => (pass, group pass)) ++ [(r.pass, [r])] := by
  induction passes with
  | nil => rfl
  | cons pass rest ih =>
    have hne : ¬ pass = r.pass := fun heq => h (heq ▸ List.mem_cons_self)
    rw [List.map_cons, insertGroup, if_neg (by simpa using hne),
      ih fun hmem => h (List.mem_cons_of_mem pass hmem), List.cons_append]

/-- Adding a remark to the groups of a list gives the groups of the list with
    that remark at its end. -/
theorem insertGroup_groupsOf (remarks : List Remark) (r : Remark) :
    insertGroup r (groupsOf remarks) = groupsOf (remarks ++ [r]) := by
  have hpasses : (remarks ++ [r]).map (·.pass) = remarks.map (·.pass) ++ [r.pass] :=
    List.map_append
  have hfilter : ∀ pass : String, (remarks ++ [r]).filter (·.pass == pass) =
      remarks.filter (·.pass == pass) ++ if r.pass == pass then [r] else [] := by
    intro pass
    rw [List.filter_append, List.filter_cons, List.filter_nil]
  rw [groupsOf, groupsOf, hpasses, eraseDups_concat]
  simp only [hfilter]
  split
  · rename_i hmem
    rw [List.append_nil]
    exact insertGroup_of_mem (nodup_eraseDups _) (List.mem_eraseDups.mpr hmem) _
  · rename_i hnot
    -- the other groups stay, and the new one holds this remark alone
    have hold : ∀ pass ∈ (remarks.map (·.pass)).eraseDups,
        (pass, remarks.filter (·.pass == pass) ++ if r.pass == pass then [r] else []) =
          (pass, remarks.filter (·.pass == pass)) := by
      intro pass hpass
      have hne : ¬ (r.pass == pass) = true := by
        rw [beq_iff_eq]
        rintro rfl
        exact hnot (List.mem_eraseDups.mp hpass)
      rw [if_neg hne, List.append_nil]
    have hnew : remarks.filter (·.pass == r.pass) = [] := by
      rw [List.filter_eq_nil_iff]
      intro other hother heq
      exact hnot (List.mem_map.mpr ⟨other, hother, beq_iff_eq.mp heq⟩)
    rw [insertGroup_of_not_mem (mt List.mem_eraseDups.mp hnot), List.map_append,
      List.map_congr_left hold, List.map_singleton, hnew, if_pos (BEq.rfl), List.nil_append]

/-- Adding remarks one after the other keeps them all and groups them by pass. -/
theorem foldl_insert (remarks : List Remark) :
    remarks.foldl insert empty = ⟨remarks, groupsOf remarks⟩ := by
  induction remarks using List.reverseRecOn with
  | nil => rfl
  | append_singleton remarks r ih =>
    rw [List.foldl_append, ih, List.foldl_cons, List.foldl_nil, insert, insertGroup_groupsOf]

/-! ## What the groups say -/

theorem map_fst_groupsOf (remarks : List Remark) :
    (groupsOf remarks).map (·.1) = (remarks.map (·.pass)).eraseDups := by
  rw [groupsOf, List.map_map]
  exact List.map_id _

theorem mem_groupsOf {entry : String × List Remark} (h : entry ∈ groupsOf remarks) :
    entry.2 = remarks.filter (·.pass == entry.1) ∧ entry.2 ≠ [] := by
  obtain ⟨pass, hpass, rfl⟩ := List.mem_map.mp h
  obtain ⟨first, hfirst, heq⟩ := List.mem_map.mp (List.mem_eraseDups.mp hpass)
  refine ⟨rfl, List.ne_nil_of_mem (a := first) ?_⟩
  exact List.mem_filter.mpr ⟨hfirst, beq_iff_eq.mpr heq⟩

theorem sum_length_insertGroup (r : Remark) (groups : List (String × List Remark)) :
    ((insertGroup r groups).map (·.2.length)).sum = (groups.map (·.2.length)).sum + 1 := by
  induction groups with
  | nil => rfl
  | cons entry rest ih =>
    obtain ⟨pass, group⟩ := entry
    rw [insertGroup]
    split
    · simp only [List.map_cons, List.sum_cons, List.length_append, List.length_singleton]
      omega
    · simp only [List.map_cons, List.sum_cons, ih]
      omega

/-- No remark is lost or put into two groups. -/
theorem sum_length_groupsOf (remarks : List Remark) :
    ((groupsOf remarks).map (·.2.length)).sum = remarks.length := by
  induction remarks using List.reverseRecOn with
  | nil => rfl
  | append_singleton remarks r ih =>
    rw [← insertGroup_groupsOf, sum_length_insertGroup, ih, List.length_append,
      List.length_singleton]

theorem lookup_map_pair (passes : List String) (group : String → List Remark) (pass : String) :
    (passes.map fun p => (p, group p)).lookup pass =
      if pass ∈ passes then some (group pass) else none := by
  induction passes with
  | nil => rfl
  | cons p rest ih =>
    rw [List.map_cons, List.lookup_cons, ih]
    by_cases heq : pass = p
    · subst heq
      simp
    · rw [beq_false_of_ne heq]
      simp [heq]

/-- A pass without a group is the pass of no remark. -/
theorem lookup_groupsOf (remarks : List Remark) (pass : String) :
    ((groupsOf remarks).lookup pass).getD [] = remarks.filter (·.pass == pass) := by
  rw [groupsOf, lookup_map_pair]
  split
  · rfl
  · rename_i hnot
    rw [Option.getD_none, eq_comm, List.filter_eq_nil_iff]
    intro r hr heq
    have hpass : pass ∈ remarks.map (·.pass) := List.mem_map.mpr ⟨r, hr, beq_iff_eq.mp heq⟩
    exact hnot (List.mem_eraseDups.mpr hpass)

/-- A grouping whose groups split its remarks by pass: each pass once, in the
    order of first appearance, with all the remarks that have it. -/
structure SplitsByPass (g : Grouped) : Prop where
  passes_nodup : (g.byPass.map (·.1)).Nodup
  passes_eq : g.byPass.map (·.1) = (g.all.map (·.pass)).eraseDups
  group_ne_nil : ∀ entry ∈ g.byPass, entry.2 ≠ []
  group_eq : ∀ entry ∈ g.byPass, entry.2 = g.all.filter (·.pass == entry.1)
  sum_length : (g.byPass.map (·.2.length)).sum = g.size

theorem splitsByPass (remarks : List Remark) : SplitsByPass ⟨remarks, groupsOf remarks⟩ where
  passes_nodup := by
    rw [map_fst_groupsOf]
    exact nodup_eraseDups _
  passes_eq := map_fst_groupsOf remarks
  group_ne_nil := fun _ h => (mem_groupsOf h).2
  group_eq := fun _ h => (mem_groupsOf h).1
  sum_length := sum_length_groupsOf remarks

/-! ## The pick list -/

theorem choices_of_ne_nil {g : Grouped} (h : g.all ≠ []) :
    g.choices = allLabel :: g.byPass.map (·.1) := by
  rw [choices, isEmpty, if_neg (by simpa using h)]

theorem choices_eq_none_iff (g : Grouped) : g.choices = [noneLabel] ↔ g.all = [] := by
  constructor
  · intro h
    by_contra hne
    rw [choices_of_ne_nil hne] at h
    -- the two labels differ
    exact absurd (List.cons.inj h).1 (by decide)
  · intro h
    rw [choices, isEmpty, h]
    rfl

theorem select_of_ne {label : String} (h : label ≠ allLabel) :
    (Grouped.mk remarks (groupsOf remarks)).select label =
      remarks.filter (·.pass == label) := by
  rw [select, if_neg (by simpa using h), lookup_groupsOf]

end Grouped

/-! ## Queries -/

namespace Remark

open Grouped (groupsOf)

/-- The remarks of a list that lie in a range. -/
def inRange (remarks : List Remark) (range : Range) : List Remark :=
  remarks.filter fun r => range.contains r.location.position

theorem query_of_inverted {range : Range} (h : range.last.key < range.first.key)
    (remarks : List Remark) : query remarks range = .error (.inverted range) := by
  rw [query, if_pos (Range.isInverted_iff.mpr h)]

theorem query_of_le {range : Range} (h : range.first.key ≤ range.last.key)
    (remarks : List Remark) :
    query remarks range = .ok ⟨inRange remarks range, groupsOf (inRange remarks range)⟩ := by
  rw [query, if_neg (fun hinv => not_lt.mpr h (Range.isInverted_iff.mp hinv)),
    Grouped.foldl_insert, inRange]

theorem query_eq_error_iff {remarks : List Remark} {range : Range} {e : QueryError} :
    query remarks range = .error e ↔ range.last.key < range.first.key ∧ e = .inverted range := by
  rcases lt_or_ge range.last.key range.first.key with h | h
  · rw [query_of_inverted h, Except.error.injEq, eq_comm]
    exact ⟨fun he => ⟨h, he⟩, fun he => he.2⟩
  · rw [query_of_le h]
    exact ⟨nofun, fun he => absurd he.1 (not_lt.mpr h)⟩

/-- A query fails on an inverted range and on no other. Otherwise it has the
    remarks between the ends of the range, in their order, and splits them by
    pass; the pick list shows the passes, and each label has its remarks. -/
theorem query_splits_by_pass (remarks : List Remark) (range : Range) :
    (∀ e, query remarks range = .error e ↔
      range.last.key < range.first.key ∧ e = .inverted range) ∧
    (range.first.key ≤ range.last.key → ∃ g, query remarks range = .ok g ∧
      g.all = remarks.filter (fun r => range.first.key ≤ r.location.position.key ∧
        r.location.position.key ≤ range.last.key) ∧
      g.SplitsByPass ∧
      (g.choices = [Grouped.noneLabel] ↔ g.all = []) ∧
      (g.all ≠ [] → g.choices = Grouped.allLabel :: g.byPass.map (·.1)) ∧
      ∀ label, label ≠ Grouped.allLabel →
        g.select label = g.all.filter (·.pass == label)) := by
  refine ⟨fun e => query_eq_error_iff, fun h => ⟨_, query_of_le h remarks, ?_,
    Grouped.splitsByPass _, Grouped.choices_eq_none_iff _, Grouped.choices_of_ne_nil,
    fun label => Grouped.select_of_ne⟩⟩
  refine List.filter_congr fun r _ => ?_
  rw [Bool.eq_iff_iff, Range.contains_iff, decide_eq_true_eq]

/-- Two passes that take turns, with remarks on both ends of the range and one
    just behind it. -/
theorem query_splits_taking_turns :
    let remarkAt (pass : String) (line column : UInt32) : Remark :=
      ⟨pass, .passed, "Found", "main", ⟨"a.c", line, column⟩, []⟩
    let remarks := [remarkAt "inline" 4 0, remarkAt "licm" 4 9, remarkAt "inline" 5 2,
      remarkAt "gvn" 5 3]
    let range : Range := ⟨⟨4, 0⟩, ⟨5, 2⟩⟩
    range.first.key ≤ range.last.key ∧ ∃ g, query remarks range = .ok g ∧ g.SplitsByPass ∧
      g.all = remarks.take 3 ∧
      g.choices = [Grouped.allLabel, "inline", "licm"] ∧
      g.select "inline" = [remarkAt "inline" 4 0, remarkAt "inline" 5 2] := by
  intro remarkAt remarks range
  have hle : range.first.key ≤ range.last.key := Position.le_iff_key.mp (by decide)
  obtain ⟨g, hg, -, hsplit, -, hchoices, hselect⟩ := (query_splits_by_pass remarks range).2 hle
  have hall : g.all = remarks.take 3 := by
    cases hg.symm.trans (query_of_le hle remarks)
    decide
  refine ⟨hle, g, hg, hsplit, hall, ?_, ?_⟩
  · rw [hchoices (by rw [hall]; decide), hsplit.passes_eq, hall]
    decide
  · rw [hselect "inline" (by decide), hall]
    decide

/-! ## Queries of queries -/

/-- A list made up of two others: each of its elements is the next one of
    either of them. -/
inductive Interleaves : List Remark → List Remark → List Remark → Prop where
  | nil : Interleaves [] [] []
  | left {r : Remark} {xs ys zs : List Remark} :
      Interleaves xs ys zs → Interleaves (r :: xs) ys (r :: zs)
  | right {r : Remark} {xs ys zs : List Remark} :
      Interleaves xs ys zs → Interleaves xs (r :: ys) (r :: zs)

/-- Two ranges that a range is cut into: each of its positions lies in one of
    them, and in one only. -/
structure Cuts (whole low high : Range) : Prop where
  contains_iff : ∀ p, whole.contains p = true ↔ low.contains p = true ∨ high.contains p = true
  disjoint : ∀ p, low.contains p = true → high.contains p = false

/-- A line with another one behind it is not the greatest. -/
theorem toNat_next {b c : UInt32} (h : b < c) : (b + 1).toNat = b.toNat + 1 := by
  have hc := c.toNat_lt
  rw [UInt32.lt_iff_toNat_lt] at h
  rw [UInt32.toNat_add, UInt32.toNat_one, Nat.mod_eq_of_lt (by omega)]

/-- A range of lines can be cut after each of its lines but the last. -/
theorem cuts_lines {a b c : UInt32} (hab : a ≤ b) (hbc : b < c) :
    Cuts (.lines a c) (.lines a b) (.lines (b + 1) c) := by
  have hnext := toNat_next hbc
  rw [UInt32.le_iff_toNat_le] at hab
  rw [UInt32.lt_iff_toNat_lt] at hbc
  constructor
  · intro p
    simp only [Range.contains_lines, UInt32.le_iff_toNat_le, hnext]
    omega
  · intro p
    rw [← Bool.not_eq_true]
    simp only [Range.contains_lines, UInt32.le_iff_toNat_le, hnext]
    omega

section Cut

variable {whole low high : Range}

theorem Cuts.interleaves (h : Cuts whole low high) (remarks : List Remark) :
    Interleaves (inRange remarks low) (inRange remarks high) (inRange remarks whole) := by
  induction remarks with
  | nil => exact .nil
  | cons r rest ih =>
    have hiff := h.contains_iff r.location.position
    simp only [inRange, List.filter_cons] at ih ⊢
    by_cases hlow : low.contains r.location.position = true
    · rw [if_pos hlow, h.disjoint _ hlow, if_neg Bool.false_ne_true,
        if_pos (hiff.mpr (.inl hlow))]
      exact .left ih
    · by_cases hhigh : high.contains r.location.position = true
      · rw [if_neg hlow, if_pos hhigh, if_pos (hiff.mpr (.inr hhigh))]
        exact .right ih
      · rw [if_neg hlow, if_neg hhigh, if_neg (fun hwhole => (hiff.mp hwhole).elim hlow hhigh)]
        exact ih

theorem Cuts.mem_inRange (h : Cuts whole low high) {remarks : List Remark} {r : Remark}
    (hr : r ∈ inRange remarks whole) :
    Xor (r ∈ inRange remarks low) (r ∈ inRange remarks high) := by
  simp only [inRange, List.mem_filter] at hr ⊢
  obtain ⟨hmem, hwhole⟩ := hr
  rcases (h.contains_iff r.location.position).mp hwhole with hlow | hhigh
  · exact .inl ⟨⟨hmem, hlow⟩, fun hother => by simp [h.disjoint _ hlow] at hother⟩
  · exact .inr ⟨⟨hmem, hhigh⟩, fun hother => by simp [h.disjoint _ hother.2] at hhigh⟩

end Cut

theorem inRange_everything (remarks : List Remark) :
    inRange remarks (.lines 0 maxWord) = remarks := by
  refine List.filter_eq_self.mpr fun r _ => Range.contains_lines.mpr ⟨UInt32.zero_le, ?_⟩
  rw [UInt32.le_iff_toNat_le]
  exact Nat.le_of_lt_succ r.location.line.toNat_lt

/-- What a wider range lets through is all that a narrower one looks at. -/
theorem inRange_inRange {inner outer : Range}
    (h : ∀ p, inner.contains p = true → outer.contains p = true) (remarks : List Remark) :
    inRange (inRange remarks outer) inner = inRange remarks inner := by
  rw [inRange, inRange, List.filter_filter, inRange]
  refine List.filter_congr fun r _ => ?_
  rw [Bool.eq_iff_iff, Bool.and_eq_true]
  exact ⟨And.left, fun hinner => ⟨hinner, h _ hinner⟩⟩

theorem key_lines_le {a b : UInt32} (h : a ≤ b) :
    (Range.lines a b).first.key ≤ (Range.lines a b).last.key := by
  have hfirst : (Range.lines a b).contains ⟨a, 0⟩ = true :=
    Range.contains_lines.mpr ⟨UInt32.le_refl a, h⟩
  exact (Range.contains_iff.mp hfirst).2

/-- Queries compose. Cutting a range of lines in two deals its remarks out to
    the two parts, the widest range of lines lets every remark through, and
    narrowing a query to a range inside its own is a query of the first list. -/
theorem queries_compose (remarks : List Remark) :
    (∀ a b c : UInt32, a ≤ b → b < c → ∃ whole low high,
      query remarks (.lines a c) = .ok whole ∧
      query remarks (.lines a b) = .ok low ∧
      query remarks (.lines (b + 1) c) = .ok high ∧
      Interleaves low.all high.all whole.all ∧
      ∀ r ∈ whole.all, Xor (r ∈ low.all) (r ∈ high.all)) ∧
    (∃ g, query remarks (.lines 0 maxWord) = .ok g ∧ g.all = remarks) ∧
    ∀ inner outer : Range, inner.first.key ≤ inner.last.key → outer.first.key ≤ outer.last.key →
      (∀ p, inner.contains p = true → outer.contains p = true) → ∃ wide narrow,
        query remarks outer = .ok wide ∧ query remarks inner = .ok narrow ∧
        query wide.all inner = .ok narrow := by
  refine ⟨?_, ?_, ?_⟩
  · intro a b c hab hbc
    have hcut := cuts_lines hab hbc
    have hnext : b + 1 ≤ c := by
      rw [UInt32.le_iff_toNat_le, toNat_next hbc]
      exact UInt32.lt_iff_toNat_lt.mp hbc
    exact ⟨_, _, _,
      query_of_le (key_lines_le (UInt32.le_trans hab (UInt32.le_of_lt hbc))) remarks,
      query_of_le (key_lines_le hab) remarks, query_of_le (key_lines_le hnext) remarks,
      hcut.interleaves remarks, fun r hr => hcut.mem_inRange hr⟩
  · exact ⟨_, query_of_le (key_lines_le (by decide)) remarks, inRange_everything remarks⟩
  · intro inner outer hinner houter hinside
    refine ⟨_, _, query_of_le houter remarks, query_of_le hinner remarks, ?_⟩
    rw [query_of_le hinner, inRange_inRange hinside]

/-- A cut between the last column of a line and the first of the next, and a
    query narrowed to a single position. -/
theorem queries_compose_between_lines :
    let remarkAt (line column : UInt32) : Remark :=
      ⟨"inline", .passed, "Found", "main", ⟨"a.c", line, column⟩, []⟩
    let remarks := [remarkAt 5 0, remarkAt 4 maxWord, remarkAt 6 1]
    let position : Range := ⟨⟨5, 0⟩, ⟨5, 0⟩⟩
    ((4 : UInt32) ≤ 4 ∧ (4 : UInt32) < 5 ∧ ∃ whole low high,
      query remarks (.lines 4 5) = .ok whole ∧ query remarks (.lines 4 4) = .ok low ∧
      query remarks (.lines (4 + 1) 5) = .ok high ∧
      Interleaves low.all high.all whole.all ∧
      ∀ r ∈ whole.all, Xor (r ∈ low.all) (r ∈ high.all)) ∧
    (∀ p, position.contains p = true → (Range.lines 4 5).contains p = true) ∧
    ∃ wide narrow, query remarks (.lines 4 5) = .ok wide ∧
      query remarks position = .ok narrow ∧ query wide.all position = .ok narrow := by
  intro remarkAt remarks position
  have hinside : ∀ p, position.contains p = true → (Range.lines 4 5).contains p = true := by
    intro p hp
    rw [Range.contains, Bool.and_eq_true] at hp
    obtain rfl : p = ⟨5, 0⟩ := Position.le_antisymm hp.2 hp.1
    decide
  have hcut := (queries_compose remarks).1 4 4 5 (by decide) (by decide)
  have hnarrow := (queries_compose remarks).2.2 position (.lines 4 5)
    (Position.le_iff_key.mp (by decide)) (key_lines_le (by decide)) hinside
  exact ⟨⟨by decide, by decide, hcut⟩, hinside, hnarrow⟩

end Remark

end CompilerRemarks
