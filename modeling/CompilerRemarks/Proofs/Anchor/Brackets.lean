/-
  CompilerRemarks.Proofs.Anchor.Brackets

  Which bracket closes which. The level of an offset tells how many more
  brackets are opened than closed before it. A byte moves the level by one at
  most (`level_succ`), and the walk that looks for a closing bracket knows how
  far the level has risen since the opening one. So it stops at the first
  offset behind which the level is back (`isFirst_matching?`), and up to there
  the level stays above that of the opening bracket (`level_lt_of_matching?`).

  Of two brackets, the later one is either opened when the earlier one is
  closed already, or at a higher level, and then it is closed first
  (`apart_or_inside_of_matching?`). The bodies that the search for anchors
  finds lie between such brackets, so they nest or are apart
  (`brackets_close_and_nest`).
-/
import Mathlib.Order.Bounds.Basic
import CompilerRemarks.Anchor.Scan
import CompilerRemarks.Proofs.Anchor.Layout

namespace CompilerRemarks.Anchor

/-! ## The first element -/

/-- A search finds the first element of a set, and nothing if there is none. -/
def IsFirst (s : Set Nat) : Option Nat → Prop
  | some i => IsLeast s i
  | none => s = ∅

section First

variable {s t : Set Nat} {found : Option Nat}

theorem IsFirst.eq_some_iff (h : IsFirst s found) {i : Nat} : found = some i ↔ IsLeast s i := by
  cases found with
  | none =>
    have hempty : s = ∅ := h
    simp [hempty, IsLeast]
  | some j =>
    have hleast : IsLeast s j := h
    rw [Option.some_inj]
    constructor
    · rintro rfl
      exact hleast
    · exact hleast.unique

theorem IsFirst.eq_none_iff (h : IsFirst s found) : found = none ↔ ¬ ∃ i, i ∈ s := by
  cases found with
  | none =>
    have hempty : s = ∅ := h
    simp [hempty]
  | some j =>
    have hleast : IsLeast s j := h
    simp only [reduceCtorEq, false_iff, not_not]
    exact ⟨j, hleast.1⟩

/-- The first element of a set whose elements are those of another one, so much
    further on. -/
theorem IsFirst.add (h : IsFirst s found) {k : Nat} (hle : ∀ n ∈ t, k ≤ n)
    (hmem : ∀ n, k + n ∈ t ↔ n ∈ s) : IsFirst t (found.map (k + ·)) := by
  cases found with
  | none =>
    have hempty : s = ∅ := h
    apply Set.eq_empty_of_forall_notMem
    intro n hn
    obtain ⟨m, rfl⟩ := Nat.exists_eq_add_of_le (hle n hn)
    rw [hmem, hempty] at hn
    exact hn
  | some i =>
    have hleast : IsLeast s i := h
    refine ⟨(hmem i).mpr hleast.1, ?_⟩
    intro n hn
    obtain ⟨m, rfl⟩ := Nat.exists_eq_add_of_le (hle n hn)
    have hi : i ≤ m := hleast.2 ((hmem m).mp hn)
    show k + i ≤ k + m
    omega

end First

/-! ## Levels -/

section Levels

variable {left right : UInt8} {bytes : List UInt8} {start : Nat}

/-- How many more brackets are opened than closed in the first `n` bytes. -/
def level (left right : UInt8) (bytes : List UInt8) (n : Nat) : Int :=
  (bytes.take n).count left - (bytes.take n).count right

/-- What a byte adds to the level. -/
def rise (left right b : UInt8) : Int :=
  if b = left then 1 else if b = right then -1 else 0

theorem level_zero (left right : UInt8) (bytes : List UInt8) : level left right bytes 0 = 0 := rfl

/-- The level goes on behind an offset. -/
theorem level_add (left right : UInt8) (bytes : List UInt8) (start n : Nat) :
    level left right bytes (start + n) =
      level left right bytes start + level left right (bytes.drop start) n := by
  simp only [level, List.take_add, List.count_append]
  omega

theorem level_succ (hne : left ≠ right) {n : Nat} {b : UInt8} (h : bytes[n]? = some b) :
    level left right bytes (n + 1) = level left right bytes n + rise left right b := by
  have htake : bytes.take (n + 1) = bytes.take n ++ [b] := by
    rw [List.take_add_one, h]
    rfl
  have hb : ([b].count left : Int) - [b].count right = rise left right b := by
    rw [rise]
    by_cases hleft : b = left
    · simp [hleft, hne]
    · by_cases hright : b = right
      · simp [hright, hne.symm]
      · simp [hleft, hright]
  simp only [level, htake, List.count_append]
  omega

theorem rise_left (left right : UInt8) : rise left right left = 1 := if_pos rfl

theorem rise_right (hne : left ≠ right) : rise left right right = -1 := by
  rw [rise, if_neg hne.symm, if_pos rfl]

theorem neg_one_le_rise (left right b : UInt8) : -1 ≤ rise left right b := by
  rw [rise]
  split
  · omega
  · split <;> omega

/-! ## The walk -/

/-- The walk stops where the level makes up for the brackets that are open. -/
theorem isFirst_closingFrom (hne : left ≠ right) {depth : Nat} (hdepth : 0 < depth)
    (bytes : List UInt8) :
    IsFirst {n | n < bytes.length ∧ depth + level left right bytes (n + 1) = 0}
      (closingFrom left right depth bytes) := by
  induction bytes generalizing depth with
  | nil =>
    apply Set.eq_empty_of_forall_notMem
    rintro n ⟨hn, -⟩
    exact absurd hn (Nat.not_lt_zero n)
  | cons b rest ih =>
    have hhead : level left right (b :: rest) 1 = rise left right b := by
      have := level_succ hne (List.getElem?_cons_zero (a := b) (l := rest))
      rwa [level_zero, Int.zero_add] at this
    have htail : ∀ n, level left right (b :: rest) (1 + n) =
        rise left right b + level left right rest n := by
      intro n
      rw [level_add, hhead]
      rfl
    -- with brackets still open behind the first byte, the walk goes on there
    have hlater : ∀ {d : Nat}, 0 < d → (d : Int) = depth + rise left right b →
        IsFirst {n | n < (b :: rest).length ∧ depth + level left right (b :: rest) (n + 1) = 0}
          ((closingFrom left right d rest).map (· + 1)) := by
      intro d hd hstep
      have hcomm : (· + 1 : Nat → Nat) = (1 + ·) := funext fun n => Nat.add_comm n 1
      rw [hcomm]
      refine (ih hd).add ?_ ?_
      · rintro n ⟨-, hn⟩
        rcases Nat.eq_zero_or_pos n with rfl | hpos
        · have hzero : (depth : Int) + level left right (b :: rest) 1 = 0 := hn
          rw [hhead] at hzero
          omega
        · exact hpos
      · intro n
        have hn := htail (n + 1)
        rw [← Nat.add_assoc] at hn
        simp only [Set.mem_ofPred_eq, List.length_cons, hn]
        omega
    rw [closingFrom]
    split
    · rename_i hleft
      have hrise : rise left right b = 1 := by rw [beq_iff_eq.mp hleft, rise_left]
      exact hlater (Nat.succ_pos depth) (by omega)
    · rename_i hleft
      split
      · rename_i hright
        have hrise : rise left right b = -1 := by rw [beq_iff_eq.mp hright, rise_right hne]
        split
        · -- the last open bracket is closed
          rename_i hone
          have hdepth1 : depth = 1 := beq_iff_eq.mp hone
          refine ⟨⟨Nat.succ_pos _, ?_⟩, fun n _ => Nat.zero_le n⟩
          show (depth : Int) + level left right (b :: rest) 1 = 0
          omega
        · rename_i hone
          have hmore : depth ≠ 1 := fun h => hone (beq_iff_eq.mpr h)
          exact hlater (by omega) (by omega)
      · rename_i hright
        have hrise : rise left right b = 0 := by
          rw [rise, if_neg (by simpa using hleft), if_neg (by simpa using hright)]
        exact hlater hdepth (by omega)

/-! ## Brackets that close -/

/-- From an offset to a later one, both included, as many brackets are closed as
    opened. -/
structure Closes (left right : UInt8) (bytes : List UInt8) (start i : Nat) : Prop where
  behind : start < i
  inside : i < bytes.length
  balanced : (bytes.extract start (i + 1)).count left = (bytes.extract start (i + 1)).count right

/-- Brackets are closed where the level is back. -/
theorem closes_iff {i : Nat} : Closes left right bytes start i ↔
    start < i ∧ i < bytes.length ∧
      level left right bytes (i + 1) = level left right bytes start := by
  have hlevel : start < i → level left right bytes (i + 1) = level left right bytes start +
      ((bytes.extract start (i + 1)).count left - (bytes.extract start (i + 1)).count right) := by
    intro h
    have hadd := level_add left right bytes start (i + 1 - start)
    rw [Nat.add_sub_cancel' (by omega)] at hadd
    exact hadd
  constructor
  · rintro ⟨hbehind, hinside, hbalanced⟩
    have := hlevel hbehind
    exact ⟨hbehind, hinside, by omega⟩
  · rintro ⟨hbehind, hinside, hback⟩
    have := hlevel hbehind
    exact ⟨hbehind, hinside, by omega⟩

/-- The closing bracket is the first byte up to which brackets are closed. -/
theorem isFirst_matching? (hne : left ≠ right) (h : bytes[start]? = some left) :
    IsFirst {i | Closes left right bytes start i} (matching? bytes start left right) := by
  have hopen : level left right bytes (start + 1) = level left right bytes start + 1 := by
    rw [level_succ hne h, rise_left]
  rw [matching?_of_left h]
  refine (isFirst_closingFrom hne Nat.one_pos _).add ?_ ?_
  · intro i hi
    exact hi.behind
  · intro n
    have hback := level_add left right bytes (start + 1) (n + 1)
    rw [← Nat.add_assoc, hopen] at hback
    simp only [Set.mem_ofPred_eq, closes_iff, List.length_drop, hback]
    omega

theorem isLeast_of_matching? (hne : left ≠ right) {last : Nat}
    (h : matching? bytes start left right = some last) :
    IsLeast {i | Closes left right bytes start i} last :=
  (isFirst_matching? hne (matching?_eq_some hne h).2.1).eq_some_iff.mp h

/-- Up to the closing bracket, the level stays above that of the opening one. -/
theorem level_lt_of_matching? (hne : left ≠ right) {last : Nat}
    (h : matching? bytes start left right = some last) {n : Nat} (hn : start < n)
    (hlast : n ≤ last) : level left right bytes start < level left right bytes n := by
  have hleft : bytes[start]? = some left := (matching?_eq_some hne h).2.1
  have hleast := isLeast_of_matching? hne h
  -- byte by byte, from behind the opening bracket
  induction n, Nat.succ_le_of_lt hn using Nat.le_induction with
  | base =>
    rw [level_succ hne hleft, rise_left]
    omega
  | succ n hle ih =>
    have habove := ih hle (by omega)
    have hinside : n < bytes.length := by
      have := hleast.1.inside
      omega
    have hstep := level_succ hne (List.getElem?_eq_getElem hinside)
    have hrise := neg_one_le_rise left right bytes[n]
    -- one byte brings the level back at most, and then it would close the bracket
    have hopen : level left right bytes (n + 1) ≠ level left right bytes start := by
      intro hback
      have hcloses : Closes left right bytes start n := closes_iff.mpr ⟨hle, hinside, hback⟩
      have hmin : last ≤ n := hleast.2 hcloses
      omega
    omega

/-- A bracket is closed before a later one is opened, or after that one is closed. -/
theorem apart_or_inside_of_matching? (hne : left ≠ right) {first₁ last₁ first₂ last₂ : Nat}
    (hlt : first₁ < first₂) (h₁ : matching? bytes first₁ left right = some last₁)
    (h₂ : matching? bytes first₂ left right = some last₂) : last₁ < first₂ ∨ last₂ < last₁ := by
  rcases Nat.lt_or_ge last₁ first₂ with hapart | hwithin
  · exact .inl hapart
  · right
    have habove := level_lt_of_matching? hne h₁ hlt hwithin
    have hback₁ := (closes_iff.mp (isLeast_of_matching? hne h₁).1).2.2
    have hback₂ := (closes_iff.mp (isLeast_of_matching? hne h₂).1).2.2
    by_contra hlate
    rcases Nat.eq_or_lt_of_le (Nat.le_of_not_lt hlate) with rfl | hbeyond
    · -- one byte cannot bring back both levels
      omega
    · -- the inner bracket would still be open behind the outer pair
      have hinner : level left right bytes first₂ < level left right bytes (last₁ + 1) :=
        level_lt_of_matching? hne h₂ (by omega) hbeyond
      omega

end Levels

/-! ## Extents -/

/-- Two extents are apart, or one of them lies inside the other. -/
def NestOrApart (first₁ last₁ first₂ last₂ : Nat) : Prop :=
  (last₁ < first₂ ∨ last₂ < first₁) ∨
    (first₁ < first₂ ∧ last₂ < last₁) ∨ (first₂ < first₁ ∧ last₁ < last₂)

/-- Pairs of brackets nest or are apart. -/
theorem nestOrApart_of_matching? {left right : UInt8} (hne : left ≠ right) {bytes : List UInt8}
    {first₁ last₁ first₂ last₂ : Nat} (hdiff : first₁ ≠ first₂)
    (h₁ : matching? bytes first₁ left right = some last₁)
    (h₂ : matching? bytes first₂ left right = some last₂) :
    NestOrApart first₁ last₁ first₂ last₂ := by
  -- the pair that is opened first is the one that may hold the other
  rcases Nat.lt_or_gt_of_ne hdiff with hlt | hgt
  · rcases apart_or_inside_of_matching? hne hlt h₁ h₂ with hapart | hinside
    · exact .inl (.inl hapart)
    · exact .inr (.inl ⟨hlt, hinside⟩)
  · rcases apart_or_inside_of_matching? hne hgt h₂ h₁ with hapart | hinside
    · exact .inl (.inr hapart)
    · exact .inr (.inr ⟨hgt, hinside⟩)

/-! ## Bodies -/

section Bodies

variable {bytes : List UInt8} {body : Nat}

/-- The brace that opens the body of a loop, if it has one. -/
def loopBody? (bytes : List UInt8) (head : LoopHead) : Option Nat :=
  if head.isDo then some head.bracket
  else
    (matching? bytes head.bracket 0x28 0x29).bind fun close =>
      (nextCode? bytes (close + 1)).bind fun found =>
        if found.2 == 0x7B then some found.1 else none

/-- The brace that opens the body of a function. -/
def functionBody? (bytes : List UInt8) (head : FunctionHead) : Option Nat :=
  (matching? bytes head.bracket 0x28 0x29).bind fun close => bodyStart? bytes (close + 1)

/-- A loop ends with the brace that closes its body. -/
theorem loopEnd?_of_body {head : LoopHead} (h : loopBody? bytes head = some body) :
    loopEnd? bytes head = matching? bytes body 0x7B 0x7D := by
  rw [loopBody?] at h
  rw [loopEnd?]
  split at h
  · rename_i hdo
    rw [if_pos hdo, Option.some_inj.mp h]
  · rename_i hdo
    obtain ⟨close, hclose, hbody⟩ := Option.bind_eq_some_iff.mp h
    obtain ⟨⟨start, b⟩, hnext, hbrace⟩ := Option.bind_eq_some_iff.mp hbody
    split at hbrace
    · rename_i hb
      cases hbrace
      have hb' : b = 0x7B := beq_iff_eq.mp hb
      simp [hdo, hclose, hnext, hb']
    · cases hbrace

theorem functionEnd?_of_body {head : FunctionHead} (h : functionBody? bytes head = some body) :
    functionEnd? bytes head = matching? bytes body 0x7B 0x7D := by
  obtain ⟨close, hclose, hbody⟩ := Option.bind_eq_some_iff.mp h
  rw [functionEnd?, hclose]
  dsimp only
  rw [hbody, Option.bind_some]

end Bodies

/-- A loop or a function that the search finds in a source has its body between
    these offsets: it starts with a brace, and the search has it end there. -/
inductive HasBody (source : List UInt8) : Nat → Nat → Prop
  | loop {head : LoopHead} {first last : Nat}
    (hhead : head ∈ loopHeads 0 [] 0 (maskText source))
    (hbody : loopBody? (Text.Utf8.encode (maskText source)) head = some first)
    (hend : loopEnd? (Text.Utf8.encode (maskText source)) head = some last) :
    HasBody source first last
  | function {head : FunctionHead} {first last : Nat}
    (hhead : head ∈ functionHeads 0 true 0 (maskText source))
    (hname : head.name ∉ notFunctions)
    (hbody : functionBody? (Text.Utf8.encode (maskText source)) head = some first)
    (hend : functionEnd? (Text.Utf8.encode (maskText source)) head = some last) :
    HasBody source first last

theorem HasBody.matching? {source : List UInt8} {first last : Nat}
    (h : HasBody source first last) :
    Anchor.matching? (Text.Utf8.encode (maskText source)) first 0x7B 0x7D = some last := by
  cases h with
  | loop _ hbody hend => rw [← loopEnd?_of_body hbody, hend]
  | function _ _ hbody hend => rw [← functionEnd?_of_body hbody, hend]

/-- The bodies of a source nest or are apart. -/
theorem HasBody.nestOrApart {source : List UInt8} {first₁ last₁ first₂ last₂ : Nat}
    (h₁ : HasBody source first₁ last₁) (h₂ : HasBody source first₂ last₂)
    (hdiff : (first₁, last₁) ≠ (first₂, last₂)) :
    NestOrApart first₁ last₁ first₂ last₂ := by
  refine nestOrApart_of_matching? (by decide) ?_ h₁.matching? h₂.matching?
  -- a brace is closed only once
  rintro rfl
  have hlast : last₁ = last₂ := Option.some_inj.mp (h₁.matching?.symm.trans h₂.matching?)
  exact hdiff (by rw [hlast])

/-- A bracket is closed by the first byte up to which, itself included, as many
    brackets are closed as opened, and if there is no such byte, by none. Pairs of
    brackets do not cross, so the bodies of functions and loops nest or are apart. -/
theorem brackets_close_and_nest :
    (∀ (bytes : List UInt8) (left right : UInt8), left ≠ right →
      (∀ start, bytes[start]? = some left →
        (∀ i, matching? bytes start left right = some i ↔
          IsLeast {i | Closes left right bytes start i} i) ∧
        (matching? bytes start left right = none ↔ ¬ ∃ i, Closes left right bytes start i)) ∧
      (∀ start, bytes[start]? ≠ some left → matching? bytes start left right = none) ∧
      ∀ first₁ last₁ first₂ last₂, first₁ < first₂ →
        matching? bytes first₁ left right = some last₁ →
        matching? bytes first₂ left right = some last₂ →
        last₁ < first₂ ∨ last₂ < last₁) ∧
    ∀ (source : List UInt8) (first₁ last₁ first₂ last₂ : Nat),
      HasBody source first₁ last₁ → HasBody source first₂ last₂ →
      (first₁, last₁) ≠ (first₂, last₂) →
      NestOrApart first₁ last₁ first₂ last₂ := by
  refine ⟨fun bytes left right hne => ⟨fun start hstart => ?_, fun start hstart => ?_, ?_⟩, ?_⟩
  · have hfirst := isFirst_matching? hne hstart
    exact ⟨fun i => hfirst.eq_some_iff, hfirst.eq_none_iff⟩
  · rw [matching?, if_neg (by simpa using hstart)]
  · intro first₁ last₁ first₂ last₂ hlt h₁ h₂
    exact apart_or_inside_of_matching? hne hlt h₁ h₂
  · intro source first₁ last₁ first₂ last₂ h₁ h₂ hdiff
    exact h₁.nestOrApart h₂ hdiff

/-- Two pairs of braces with one more behind them, and a function with a loop in
    its body. -/
theorem brackets_close_and_nest_in_function :
    let bytes : List UInt8 := [0x7B, 0x61, 0x7B, 0x62, 0x7D, 0x63, 0x7D, 0x7D]
    let source := Text.Utf8.encode "f()\x7bdo\x7b\x7d\x7d".toList
    ((0x7B : UInt8) ≠ 0x7D ∧ bytes[0]? = some 0x7B ∧ matching? bytes 0 0x7B 0x7D = some 6 ∧
      matching? bytes 2 0x7B 0x7D = some 4 ∧ bytes[7]? ≠ some 0x7B ∧
      IsLeast {i | Closes 0x7B 0x7D bytes 0 i} 6 ∧ matching? bytes 7 0x7B 0x7D = none ∧
      (6 < 2 ∨ 4 < 6)) ∧
    HasBody source 3 8 ∧ HasBody source 6 7 ∧ (3, 8) ≠ (6, 7) ∧
    NestOrApart 3 8 6 7 := by
  intro bytes source
  have hne : (0x7B : UInt8) ≠ 0x7D := by decide
  have hopen : bytes[0]? = some 0x7B := rfl
  have houter : matching? bytes 0 0x7B 0x7D = some 6 := by decide
  have hinner : matching? bytes 2 0x7B 0x7D = some 4 := by decide
  have hclosing : bytes[7]? ≠ some 0x7B := by decide
  have hfunction : HasBody source 3 8 :=
    @HasBody.function source ⟨0, ['f'], 1⟩ 3 8 (by exact List.mem_cons_self) (by decide +kernel)
      (by decide +kernel) (by decide +kernel)
  have hloop : HasBody source 6 7 :=
    @HasBody.loop source ⟨4, 6, true, false⟩ 6 7 (by exact List.mem_cons_self) (by decide +kernel)
      (by decide +kernel)
  have hdiff : ((3, 8) : Nat × Nat) ≠ (6, 7) := by decide
  obtain ⟨hpairs, hbodies⟩ := brackets_close_and_nest
  obtain ⟨hclose, hnone, hnest⟩ := hpairs bytes 0x7B 0x7D hne
  exact ⟨⟨hne, hopen, houter, hinner, hclosing, ((hclose 0 hopen).1 6).mp houter,
    hnone 7 hclosing, hnest 0 6 2 4 (by decide) houter hinner⟩,
    hfunction, hloop, hdiff, hbodies source 3 8 6 7 hfunction hloop hdiff⟩

end CompilerRemarks.Anchor
