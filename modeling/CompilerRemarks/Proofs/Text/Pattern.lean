/-
  CompilerRemarks.Proofs.Text.Pattern

  Patterns with greedy repetition, alternatives in order and groups. The ways in
  which a pattern matches the start of a text are listed as a reader tries them
  who goes back to the last choice whenever it gets stuck (`Pattern.ways`): a
  repetition goes on as long as it can before it stops, and the first of two
  alternatives comes before the second. What counts is the first way, at the
  first place of the text that has one (`Pattern.search?`).
-/
import Mathlib.Data.List.Basic

namespace CompilerRemarks.Text

/-! ## Patterns and their matches -/

/-- A pattern of texts. -/
inductive Pattern where
  /-- A character with a property. -/
  | one (p : Char → Bool)
  | literal (t : List Char)
  | sequence (a b : Pattern)
  | either (a b : Pattern)
  | many (a : Pattern)
  /-- A part whose text is kept under a number. -/
  | group (number : Nat) (a : Pattern)

/-- A way to match the start of a text: the part that is taken, the rest, and
    the texts of the groups. -/
structure Match where
  taken : List Char
  rest : List Char
  groups : List (Nat × List Char)

/-- Nothing taken. -/
def Match.start (s : List Char) : Match :=
  ⟨[], s, []⟩

/-- One match behind another. -/
def Match.append (m m' : Match) : Match :=
  ⟨m.taken ++ m'.taken, m'.rest, m.groups ++ m'.groups⟩

/-- The ways to take a step again and again, as long as it takes something. -/
def repeated (step : List Char → List Match) (s : List Char) : List Match :=
  ((step s).flatMap fun m =>
    if _h : m.rest.length < s.length then (repeated step m.rest).map m.append else []) ++
  [.start s]
termination_by s.length

namespace Pattern

/-- The ways to match the start of a text, in the order in which they are
    tried. -/
def ways : Pattern → List Char → List Match
  | .one _, [] => []
  | .one p, c :: s => if p c then [⟨[c], s, []⟩] else []
  | .literal t, s => if t.isPrefixOf s then [⟨t, s.drop t.length, []⟩] else []
  | .sequence a b, s => (ways a s).flatMap fun m => (ways b m.rest).map m.append
  | .either a b, s => ways a s ++ ways b s
  | .many a, s => repeated (ways a) s
  | .group number a, s => (ways a s).map fun m => { m with groups := (number, m.taken) :: m.groups }

/-- The match at the start of a text. -/
def first? (r : Pattern) (s : List Char) : Option Match :=
  (r.ways s).head?

/-- The first match in a text. -/
def search? (r : Pattern) : List Char → Option Match
  | [] => r.first? []
  | c :: s => (r.first? (c :: s)).or (search? r s)

/-! ## First matches -/

variable {a b r : Pattern} {s : List Char}

theorem first?_sequence (a b : Pattern) (s : List Char) : (sequence a b).first? s =
    (a.ways s).findSome? fun m => (b.first? m.rest).map m.append := by
  simp only [first?, ways, List.head?_flatMap, List.head?_map]

theorem first?_either (a b : Pattern) (s : List Char) :
    (either a b).first? s = (a.first? s).or (b.first? s) := by
  simp only [first?, ways, List.head?_append]

theorem first?_group (number : Nat) (a : Pattern) (s : List Char) : (group number a).first? s =
    (a.first? s).map fun m => { m with groups := (number, m.taken) :: m.groups } := by
  simp only [first?, ways, List.head?_map]

theorem first?_literal_append (t s : List Char) :
    (literal t).first? (t ++ s) = some ⟨t, s, []⟩ := by
  have hstart : t.isPrefixOf (t ++ s) = true := List.isPrefixOf_iff_prefix.mpr ⟨s, rfl⟩
  simp [first?, ways, hstart]

theorem first?_literal_eq_none {t : List Char} (h : ¬ t <+: s) : (literal t).first? s = none := by
  have hstart : ¬ t.isPrefixOf s = true := mt List.isPrefixOf_iff_prefix.mp h
  simp [first?, ways, hstart]

/-- A literal has one way at most, so what follows it is matched there. -/
theorem first?_literal_sequence (t : List Char) (b : Pattern) (s : List Char) :
    (sequence (literal t) b).first? (t ++ s) =
      (b.first? s).map (Match.append ⟨t, s, []⟩) := by
  have hstart : t.isPrefixOf (t ++ s) = true := List.isPrefixOf_iff_prefix.mpr ⟨s, rfl⟩
  rw [first?_sequence]
  simp [ways, hstart]

theorem first?_literal_sequence_eq_none {t : List Char} (h : ¬ t <+: s) (b : Pattern) :
    (sequence (literal t) b).first? s = none := by
  have hstart : ¬ t.isPrefixOf s = true := mt List.isPrefixOf_iff_prefix.mp h
  rw [first?_sequence]
  simp [ways, hstart]

/-! ## Repetition -/

/-- A repetition takes one step and goes on, or stops. -/
theorem ways_many (a : Pattern) (s : List Char) : (many a).ways s =
    ((a.ways s).flatMap fun m =>
      if m.rest.length < s.length then ((many a).ways m.rest).map m.append else []) ++
    [.start s] := by
  rw [ways, repeated]
  rfl

/-- A step that leaves less text is followed by the ways to go on behind it. -/
theorem ways_many_of_step {m : Match} (h : a.ways s = [m]) (hlt : m.rest.length < s.length) :
    (many a).ways s = ((many a).ways m.rest).map m.append ++ [.start s] := by
  rw [ways_many, h, List.flatMap_singleton, if_pos hlt]

theorem ways_many_of_stuck (h : a.ways s = []) : (many a).ways s = [.start s] := by
  rw [ways_many, h, List.flatMap_nil, List.nil_append]

theorem ways_many_one_cons (p : Char → Bool) (c : Char) (s : List Char) :
    (many (one p)).ways (c :: s) =
      (if p c then ((many (one p)).ways s).map (Match.append ⟨[c], s, []⟩) else []) ++
        [.start (c :: s)] := by
  by_cases hc : p c = true
  · have hstep : (one p).ways (c :: s) = [⟨[c], s, []⟩] := if_pos hc
    rw [if_pos hc, ways_many_of_step hstep (by simp)]
  · have hstuck : (one p).ways (c :: s) = [] := if_neg hc
    rw [if_neg hc, ways_many_of_stuck hstuck, List.nil_append]

theorem ways_many_one_nil (p : Char → Bool) : (many (one p)).ways [] = [.start []] :=
  ways_many_of_stuck rfl

/-- A repetition of one character takes all that it can. -/
theorem first?_many_one (p : Char → Bool) (s : List Char) :
    (many (one p)).first? s = some ⟨s.takeWhile p, s.dropWhile p, []⟩ := by
  induction s with
  | nil => rw [first?, ways_many_one_nil]; rfl
  | cons c s ih =>
    rw [first?] at ih ⊢
    rw [ways_many_one_cons, List.takeWhile_cons, List.dropWhile_cons]
    by_cases hc : p c = true
    · rw [if_pos hc, if_pos hc, if_pos hc, List.head?_append, List.head?_map, ih]
      rfl
    · rw [if_neg hc, if_neg hc, if_neg hc]
      rfl

/-! ## Groups -/

/-- The texts of the groups of the match at the start of a text. -/
def captures? (r : Pattern) (s : List Char) : Option (List (Nat × List Char)) :=
  (r.first? s).map (·.groups)

/-- Whether a pattern has no groups. -/
def IsGroupless : Pattern → Prop
  | .one _ => True
  | .literal _ => True
  | .sequence a b => IsGroupless a ∧ IsGroupless b
  | .either a b => IsGroupless a ∧ IsGroupless b
  | .many a => IsGroupless a
  | .group _ _ => False

theorem groups_of_mem_many (h : ∀ s, ∀ m ∈ a.ways s, m.groups = []) :
    ∀ s, ∀ m ∈ (many a).ways s, m.groups = [] := by
  intro s
  induction hn : s.length using Nat.strongRecOn generalizing s with
  | ind n ih =>
    intro m hm
    rw [ways_many, List.mem_append, List.mem_flatMap, List.mem_singleton] at hm
    rcases hm with ⟨step, hstep, hm⟩ | rfl
    · by_cases hlt : step.rest.length < s.length
      · rw [if_pos hlt, List.mem_map] at hm
        obtain ⟨later, hlater, rfl⟩ := hm
        have hnone := ih step.rest.length (by omega) step.rest rfl later hlater
        rw [Match.append, h s step hstep, hnone, List.nil_append]
      · rw [if_neg hlt] at hm
        exact absurd hm List.not_mem_nil
    · rfl

theorem groups_of_mem_ways (hr : r.IsGroupless) : ∀ s, ∀ m ∈ r.ways s, m.groups = [] := by
  induction r with
  | one p =>
    intro s m hm
    cases s with
    | nil => exact absurd hm List.not_mem_nil
    | cons c s =>
      rw [ways] at hm
      split at hm
      · rw [List.mem_singleton.mp hm]
      · exact absurd hm List.not_mem_nil
  | literal t =>
    intro s m hm
    rw [ways] at hm
    split at hm
    · rw [List.mem_singleton.mp hm]
    · exact absurd hm List.not_mem_nil
  | sequence a b iha ihb =>
    intro s m hm
    rw [ways, List.mem_flatMap] at hm
    obtain ⟨front, hfront, hm⟩ := hm
    obtain ⟨back, hback, rfl⟩ := List.mem_map.mp hm
    rw [Match.append, iha hr.1 s front hfront, ihb hr.2 front.rest back hback, List.nil_append]
  | either a b iha ihb =>
    intro s m hm
    rw [ways, List.mem_append] at hm
    exact hm.elim (iha hr.1 s m) (ihb hr.2 s m)
  | many a iha => exact groups_of_mem_many (iha hr)
  | group number a _ => exact absurd hr id

theorem captures?_either (a b : Pattern) (s : List Char) :
    (either a b).captures? s = (a.captures? s).or (b.captures? s) := by
  rw [captures?, first?_either, Option.map_or, captures?, captures?]

theorem captures?_literal_sequence (t : List Char) (b : Pattern) (s : List Char) :
    (sequence (literal t) b).captures? (t ++ s) = b.captures? s := by
  rw [captures?, first?_literal_sequence, Option.map_map, captures?]
  rfl

theorem captures?_literal_sequence_eq_none {t : List Char} (h : ¬ t <+: s) (b : Pattern) :
    (sequence (literal t) b).captures? s = none := by
  rw [captures?, first?_literal_sequence_eq_none h, Option.map_none]

/-- A pattern behind a repetition is tried where the repetition ends, and then
    further and further to the left. -/
theorem captures?_many_one_sequence_cons (p : Char → Bool) (b : Pattern) (c : Char)
    (s : List Char) : (sequence (many (one p)) b).captures? (c :: s) =
      if p c then ((sequence (many (one p)) b).captures? s).or (b.captures? (c :: s))
      else b.captures? (c :: s) := by
  have hstop : ∀ t : List Char,
      ((b.first? (Match.start t).rest).map (Match.append (.start t))).map (·.groups) =
        b.captures? t := by
    intro t
    rw [Option.map_map]
    rfl
  -- the character that is taken first has no part in the groups
  have hlater : ((((many (one p)).ways s).map (Match.append ⟨[c], s, []⟩)).findSome? fun m =>
      (b.first? m.rest).map m.append).map (·.groups) =
        (sequence (many (one p)) b).captures? s := by
    rw [captures?, first?_sequence, List.findSome?_map, List.map_findSome?, List.map_findSome?]
    congr 1
    funext m
    simp only [Function.comp_apply, Option.map_map]
    rfl
  rw [captures?, first?_sequence, ways_many_one_cons, List.findSome?_append,
    List.findSome?_singleton, Option.map_or, hstop]
  by_cases hc : p c = true
  · rw [if_pos hc, if_pos hc, hlater]
  · rw [if_neg hc, if_neg hc]
    rfl

theorem captures?_many_one_sequence_nil (p : Char → Bool) (b : Pattern) :
    (sequence (many (one p)) b).captures? [] = b.captures? [] := by
  rw [captures?, first?_sequence, ways_many_one_nil, List.findSome?_singleton, Option.map_map]
  rfl

/-! ## Up to a character -/

/-- What a pattern takes of a text that goes on with a character. -/
def upTo? (r : Pattern) (stop : Char) (s : List Char) : Option (List Char) :=
  (r.ways s).findSome? fun m => if m.rest.head? = some stop then some m.taken else none

theorem upTo?_start {stop : Char} (h : r.ways s = [.start s]) :
    r.upTo? stop s = if s.head? = some stop then some [] else none := by
  rw [upTo?, h, List.findSome?_singleton]
  rfl

theorem upTo?_step {stop : Char} {m : Match}
    (h : r.ways s = (r.ways m.rest).map m.append ++ [.start s]) :
    r.upTo? stop s = ((r.upTo? stop m.rest).map (m.taken ++ ·)).or
      (if s.head? = some stop then some [] else none) := by
  rw [upTo?, h, List.findSome?_append, List.findSome?_singleton, List.findSome?_map, upTo?,
    List.map_findSome?]
  congr 2
  funext later
  by_cases hstop : later.rest.head? = some stop <;> simp [Match.append, hstop]

theorem upTo?_many_ne (stop : Char) (s : List Char) :
    (many (one (· != stop))).upTo? stop s =
      if s.contains stop then some (s.takeWhile (· != stop)) else none := by
  induction s with
  | nil => rw [upTo?_start (ways_many_one_nil _)]; rfl
  | cons c s ih =>
    by_cases hc : c = stop
    · subst hc
      have hstuck : (one (· != c)).ways (c :: s) = [] := if_neg (by simp)
      rw [upTo?_start (ways_many_of_stuck hstuck)]
      simp
    · have hgoes : (c != stop) = true := bne_iff_ne.mpr hc
      have hstep : (one (· != stop)).ways (c :: s) = [⟨[c], s, []⟩] := if_pos hgoes
      have hhead : ¬ (c :: s).head? = some stop := by simpa using hc
      have hmem : (c :: s).contains stop = s.contains stop := by
        simp [Ne.symm hc]
      rw [upTo?_step (ways_many_of_step hstep (by simp)), ih, if_neg hhead, Option.or_none, hmem,
        List.takeWhile_cons, if_pos hgoes]
      split <;> rfl

/-- A group that is followed by a character holds what its pattern takes up to
    it. -/
theorem captures?_group_literal (hr : r.IsGroupless) (number : Nat) (stop : Char)
    (s : List Char) : (sequence (group number r) (literal [stop])).captures? s =
      (r.upTo? stop s).map fun taken => [(number, taken)] := by
  rw [captures?, first?_sequence, ways, List.findSome?_map, List.map_findSome?, upTo?,
    List.map_findSome?, ← List.head?_filterMap, ← List.head?_filterMap]
  congr 1
  apply List.filterMap_congr
  intro m hm
  have hgroups : m.groups = [] := groups_of_mem_ways hr s m hm
  simp only [Function.comp_apply]
  by_cases hstop : m.rest.head? = some stop
  · obtain ⟨rest, hrest⟩ := List.head?_eq_some_iff.mp hstop
    have hnext : (literal [stop]).first? m.rest = some ⟨[stop], rest, []⟩ := by
      rw [hrest]
      exact first?_literal_append [stop] rest
    rw [hnext, if_pos hstop]
    simp [Match.append, hgroups]
  · have hnext : (literal [stop]).first? m.rest = none := by
      apply first?_literal_eq_none
      rintro ⟨rest, hrest⟩
      exact hstop (by rw [← hrest]; rfl)
    rw [hnext, if_neg hstop]
    rfl

end Pattern

end CompilerRemarks.Text
