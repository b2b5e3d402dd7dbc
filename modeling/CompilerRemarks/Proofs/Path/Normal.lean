/-
  CompilerRemarks.Proofs.Path.Normal

  Paths in normal form: names from the root, with no `.` and no `..` left to
  resolve (`IsNormal`). Taken from a base in normal form, every path has one
  (`isNormal_normalize`), and a path that is in normal form keeps its
  components (`components_normalize_of_isNormal`). Seen from a directory in
  normal form, the relative path to a file is a descent by names just if the
  file lies at these names below the directory (`relative?_same_iff`).
-/
import CompilerRemarks.Path.Normal
import CompilerRemarks.Proofs.Path.Components

namespace CompilerRemarks.Path

/-! ## Normal form -/

/-- A path in normal form: names from the root. -/
def IsNormal (p : Path) : Prop :=
  ∃ names : List (List Char), p.components = .root :: names.map .name

/-- A relative path that goes down by one name or more. -/
def Descends (p : Path) : Prop :=
  ∃ names : List (List Char), names ≠ [] ∧ p.components = names.map .name

/-- The components of a path in normal form. -/
def IsRooted (cs : List Component) : Prop :=
  ∃ names : List (List Char), (∀ n ∈ names, IsPlain n) ∧ cs = .root :: names.map .name

theorem IsNormal.isRooted {p : Path} (h : p.IsNormal) : IsRooted p.components := by
  obtain ⟨names, hnames⟩ := h
  refine ⟨names, ?_, hnames⟩
  intro n hn
  have hmem : .name n ∈ p.components := by
    rw [hnames]
    exact List.mem_cons_of_mem _ (List.mem_map_of_mem hn)
  exact isPlain_of_mem_components hmem

theorem IsRooted.components_ofComponents {cs : List Component} (h : IsRooted cs) :
    (ofComponents cs).components = cs := by
  obtain ⟨names, hplain, rfl⟩ := h
  apply components_ofComponents_root
  intro c hc
  obtain ⟨n, hn, rfl⟩ := List.mem_map.mp hc
  exact hplain n hn

theorem IsRooted.isNormal_ofComponents {cs : List Component} (h : IsRooted cs) :
    (ofComponents cs).IsNormal := by
  have hcomponents := h.components_ofComponents
  obtain ⟨names, -, rfl⟩ := h
  exact ⟨names, hcomponents⟩

section IsNormal

variable {p q : Path}

theorem IsNormal.isAbsolute (h : p.IsNormal) : p.isAbsolute = true := by
  obtain ⟨names, hnames⟩ := h
  rw [isAbsolute_iff_root, hnames]
  rfl

theorem IsNormal.components_ne_nil (h : p.IsNormal) : p.components ≠ [] :=
  Path.components_ne_nil h.isAbsolute

theorem IsNormal.ne_of_mem (h : p.IsNormal) {c : Component} (hc : c ∈ p.components) :
    c ≠ .current ∧ c ≠ .parent := by
  obtain ⟨names, hnames⟩ := h
  rw [hnames] at hc
  rcases List.mem_cons.mp hc with rfl | hc
  · exact ⟨nofun, nofun⟩
  · obtain ⟨n, -, rfl⟩ := List.mem_map.mp hc
    exact ⟨nofun, nofun⟩

theorem IsNormal.congr (hp : p.IsNormal) (h : q.components = p.components) : q.IsNormal := by
  obtain ⟨names, hnames⟩ := hp
  exact ⟨names, h.trans hnames⟩

/-- Steps of which none climbs are names. -/
theorem exists_names_of_isStep {cs : List Component} (hsteps : ∀ c ∈ cs, c.IsStep)
    (hparent : .parent ∉ cs) : ∃ names : List (List Char), cs = names.map .name := by
  induction cs with
  | nil => exact ⟨[], rfl⟩
  | cons c cs ih =>
    obtain ⟨names, rfl⟩ := ih (fun d hd => hsteps d (List.mem_cons_of_mem c hd))
      (fun hmem => hparent (List.mem_cons_of_mem c hmem))
    have hc := hsteps c List.mem_cons_self
    cases c with
    | root => exact absurd rfl hc.ne_root
    | current => exact absurd rfl hc.ne_current
    | parent => exact absurd List.mem_cons_self hparent
    | name n => exact ⟨n :: names, rfl⟩

/-- An absolute path is in normal form where it never climbs. -/
theorem isNormal_of_not_mem (hp : p.isAbsolute = true) (h : .parent ∉ p.components) :
    p.IsNormal := by
  have hcomponents := components_of_isAbsolute hp
  rw [hcomponents] at h
  obtain ⟨names, hnames⟩ := exists_names_of_isStep (fun c hc => isStep_of_mem_stepsOf hc)
    (fun hmem => h (List.mem_cons_of_mem _ hmem))
  exact ⟨names, by rw [hcomponents, hnames]⟩

/-- A path in normal form that lacks its last names is in normal form. -/
theorem IsNormal.of_initial (hp : p.IsNormal) (hq : q.components ≠ [])
    (h : q.components <+: p.components) : q.IsNormal := by
  obtain ⟨names, hnames⟩ := hp
  obtain ⟨rest, hrest⟩ := h
  obtain ⟨c, cs, hcs⟩ := List.exists_cons_of_ne_nil hq
  rw [hnames, hcs, List.cons_append] at hrest
  obtain ⟨rfl, hmap⟩ := List.cons.inj hrest
  obtain ⟨above, below, -, rfl, -⟩ := List.map_eq_append_iff.mp hmap.symm
  exact ⟨above, hcs⟩

theorem Descends.eq_name (h : p.Descends) {c : Component} (hc : c ∈ p.components) :
    ∃ n, c = .name n := by
  obtain ⟨names, -, hnames⟩ := h
  rw [hnames] at hc
  obtain ⟨n, -, rfl⟩ := List.mem_map.mp hc
  exact ⟨n, rfl⟩

theorem Descends.isStep (h : p.Descends) {c : Component} (hc : c ∈ p.components) : c.IsStep := by
  obtain ⟨n, rfl⟩ := h.eq_name hc
  exact isPlain_of_mem_components hc

theorem Descends.relative (h : p.Descends) : p.isAbsolute = false := by
  rw [← Bool.not_eq_true, isAbsolute_iff_root]
  intro hroot
  obtain ⟨n, hn⟩ := h.eq_name (List.mem_of_mem_head? hroot)
  cases hn

/-- Going down from a path puts the names behind it. -/
theorem components_join_of_descends (hp : p.components ≠ []) (hq : q.Descends) :
    (p.join q).components = p.components ++ q.components := by
  rw [components_join hp hq.relative, List.filter_eq_self.mpr]
  intro c hc
  exact decide_eq_true (hq.isStep hc).ne_current

theorem IsNormal.join_of_descends (hp : p.IsNormal) (hq : q.Descends) : (p.join q).IsNormal := by
  have hjoin := components_join_of_descends hp.components_ne_nil hq
  obtain ⟨names, hnames⟩ := hp
  obtain ⟨below, -, hbelow⟩ := hq
  refine ⟨names ++ below, ?_⟩
  rw [hjoin, hnames, hbelow, List.map_append]
  rfl

/-- What starts with a directory and is not the directory itself is reached from
    it by a descent. -/
theorem IsNormal.exists_descends (hp : p.IsNormal) (hq : q.IsNormal)
    (hstarts : p.startsWith q = true) (hne : p.same q = false) :
    ∃ rel : Path, rel.Descends ∧ p.components = q.components ++ rel.components := by
  obtain ⟨rest, hrest⟩ := List.isPrefixOf_iff_prefix.mp hstarts
  have hplain := hp.isRooted
  obtain ⟨names, hnames, hroot⟩ := hplain
  obtain ⟨above, habove⟩ := hq
  -- both start at the root, so what is left of the names is names
  rw [hroot, habove, List.cons_append] at hrest
  obtain ⟨-, hmap⟩ := List.cons.inj hrest
  obtain ⟨_, below, rfl, -, rfl⟩ := List.map_eq_append_iff.mp hmap.symm
  have hread : (ofComponents (below.map .name)).components = below.map .name := by
    apply components_ofComponents
    intro c hc
    obtain ⟨n, hn, rfl⟩ := List.mem_map.mp hc
    exact hnames n (List.mem_append_right _ hn)
  have hsplit : p.components = q.components ++ below.map .name := by
    rw [hroot, habove, List.cons_append, ← hmap]
  refine ⟨ofComponents (below.map .name), ⟨below, ?_, hread⟩, by rw [hread, hsplit]⟩
  rintro rfl
  rw [List.map_nil, List.append_nil, ← same_iff] at hsplit
  rw [hsplit] at hne
  cases hne

/-- A plain name on its own is a descent. -/
theorem IsPlain.components {n : List Char} (h : IsPlain n) :
    (⟨String.ofList n⟩ : Path).components = [.name n] := by
  have hstep : ∀ c ∈ [Component.name n], c.IsStep := by
    intro c hc
    rw [List.mem_singleton.mp hc]
    exact h
  have hread := components_ofComponents hstep
  rwa [ofComponents, textOf, Component.chars] at hread

theorem IsPlain.descends {n : List Char} (h : IsPlain n) :
    (⟨String.ofList n⟩ : Path).Descends :=
  ⟨[n], List.cons_ne_nil _ _, h.components⟩

end IsNormal

/-! ## Following steps -/

theorem follow_append (start steps steps' : List Component) :
    follow start (steps ++ steps') = follow (follow start steps) steps' :=
  List.foldl_append

theorem follow_names (start : List Component) (names : List (List Char)) :
    follow start (names.map .name) = start ++ names.map .name := by
  induction names generalizing start with
  | nil => exact (List.append_nil start).symm
  | cons n names ih =>
    show follow (start ++ [.name n]) (names.map .name) = _
    rw [ih, List.append_assoc]
    rfl

theorem stepBack_concat {cs : List Component} (hcs : cs ≠ []) (c : Component) :
    stepBack (cs ++ [c]) = cs := by
  obtain ⟨d, ds, rfl⟩ := List.exists_cons_of_ne_nil hcs
  unfold stepBack
  split
  · rename_i hroot
    exact absurd hroot (by simp)
  · exact List.dropLast_concat

theorem IsRooted.stepBack {cs : List Component} (h : IsRooted cs) : IsRooted (stepBack cs) := by
  obtain ⟨names, hplain, rfl⟩ := h
  rcases List.eq_nil_or_concat names with rfl | ⟨above, last, rfl⟩
  · -- the root is its own parent
    exact ⟨[], nofun, rfl⟩
  · rw [List.concat_eq_append] at hplain ⊢
    refine ⟨above, fun n hn => hplain n (List.mem_append_left _ hn), ?_⟩
    rw [List.map_append, ← List.cons_append]
    exact stepBack_concat (List.cons_ne_nil _ _) _

/-- Steps from a rooted place lead to a rooted place: `..` takes a name away,
    and nothing leads above the root. -/
theorem IsRooted.follow {cs steps : List Component} (h : IsRooted cs)
    (hsteps : ∀ c ∈ steps, c.IsStep ∨ c = .current) : IsRooted (follow cs steps) := by
  induction steps generalizing cs with
  | nil => exact h
  | cons c steps ih =>
    have hrest : ∀ d ∈ steps, d.IsStep ∨ d = .current :=
      fun d hd => hsteps d (List.mem_cons_of_mem c hd)
    have hc := hsteps c List.mem_cons_self
    cases c with
    | root => exact absurd rfl (hc.resolve_right nofun).ne_root
    | current => exact ih h hrest
    | parent => exact ih h.stepBack hrest
    | name n =>
      obtain ⟨names, hplain, rfl⟩ := h
      have hn : IsPlain n := hc.resolve_right nofun
      refine ih ⟨names ++ [n], ?_, ?_⟩ hrest
      · intro m hm
        rcases List.mem_append.mp hm with hm | hm
        · exact hplain m hm
        · exact List.mem_singleton.mp hm ▸ hn
      · rw [List.map_append]
        rfl

/-! ## Normalisation -/

theorem parent?_of_concat {p : Path} (hp : p.isAbsolute = true) {cs : List Component}
    {c : Component} (hcs : cs ≠ []) (h : p.components = cs ++ [c]) :
    ∃ q, p.parent? = some q ∧ q.isAbsolute = true ∧ q.components = cs := by
  obtain ⟨hnil, -⟩ | ⟨q, hq, hcomponents, hancestors⟩ := ancestors_of_concat hp h
  · exact absurd hnil hcs
  · exact ⟨q, by rw [parent?, hancestors]; rfl, hq, hcomponents⟩

/-- The parent of a path in normal form lies one step back. -/
theorem components_parent {p : Path} (hp : p.IsNormal) :
    (p.parent?.getD p).components = stepBack p.components := by
  have habsolute := hp.isAbsolute
  obtain ⟨names, hnames⟩ := hp
  rcases List.eq_nil_or_concat names with rfl | ⟨above, last, rfl⟩
  · have hroot : p.components = [] ++ [.root] := hnames
    obtain ⟨-, hnone⟩ | ⟨q, hq, hnil, -⟩ := ancestors_of_concat habsolute hroot
    · rw [parent?, hnone, hnames]
      exact hnames
    · exact absurd hnil (components_ne_nil hq)
  · rw [List.concat_eq_append, List.map_append, ← List.cons_append] at hnames
    obtain ⟨q, hparent, -, hq⟩ := parent?_of_concat habsolute (List.cons_ne_nil _ _) hnames
    rw [hparent, Option.getD_some, hq, hnames]
    exact (stepBack_concat (List.cons_ne_nil _ _) _).symm

/-- The first step of a path leads on from the base like every other one. -/
theorem firstStep_eq_follow {base : Path} (hbase : base.IsNormal) {c : Component}
    (hc : c ≠ .root) : firstStep base c = follow base.components [c] := by
  cases c with
  | root => exact absurd rfl hc
  | current => rfl
  | parent => exact components_parent hbase
  | name n => rfl

/-- Where a path leads from a base. -/
def destination (p base : Path) : List Component :=
  if p.isAbsolute then follow [.root] p.components.tail else follow base.components p.components

theorem isRooted_destination {base : Path} (hbase : base.IsNormal) (p : Path) :
    IsRooted (p.destination base) := by
  rw [destination]
  split
  · rename_i hp
    have hroot : IsRooted [.root] := ⟨[], nofun, rfl⟩
    rw [components_of_isAbsolute hp]
    exact hroot.follow fun c hc => .inl (isStep_of_mem_stepsOf hc)
  · rename_i hp
    rw [Bool.not_eq_true] at hp
    exact hbase.isRooted.follow fun c hc => isStep_of_mem_relative hp hc

/-- The normal form of a path is written with the components of the place that
    it leads to. -/
theorem normalize_eq_ofComponents {p base : Path} (hbase : base.IsNormal)
    (hp : p.components ≠ []) : p.normalize base = ofComponents (p.destination base) := by
  obtain ⟨first, rest, hcomponents⟩ := List.exists_cons_of_ne_nil hp
  rw [normalize, destination, hcomponents]
  show ofComponents (follow (firstStep base first) rest) = _
  split
  · rename_i habsolute
    rw [isAbsolute_iff_root, hcomponents] at habsolute
    rw [Option.some.inj habsolute]
    rfl
  · rename_i hrelative
    have hfirst : first ≠ .root := by
      intro hroot
      apply hrelative
      rw [isAbsolute_iff_root, hcomponents, hroot]
      rfl
    rw [firstStep_eq_follow hbase hfirst, ← follow_append]
    rfl

theorem components_normalize {base : Path} (hbase : base.IsNormal) (p : Path) :
    (p.normalize base).components = p.destination base := by
  by_cases hp : p.components = []
  · -- the empty path is the base, which is not written anew
    have hrelative : p.isAbsolute = false := by
      rw [← Bool.not_eq_true, isAbsolute_iff_root, hp]
      exact nofun
    rw [normalize, hp, destination, hrelative, if_neg Bool.false_ne_true, hp]
    rfl
  · rw [normalize_eq_ofComponents hbase hp]
    exact (isRooted_destination hbase p).components_ofComponents

/-- A path taken from a base in normal form gets a normal form. -/
theorem isNormal_normalize {base : Path} (hbase : base.IsNormal) (p : Path) :
    (p.normalize base).IsNormal := by
  obtain ⟨names, -, hnames⟩ := isRooted_destination hbase p
  exact ⟨names, by rw [components_normalize hbase, hnames]⟩

/-- A path in normal form stays where it is, whatever the base. -/
theorem components_normalize_of_isNormal {p : Path} (hp : p.IsNormal) (base : Path) :
    (p.normalize base).components = p.components := by
  have hrooted := hp.isRooted
  obtain ⟨names, hnames⟩ := hp
  have hnormalize : p.normalize base = ofComponents p.components := by
    rw [normalize, hnames]
    show ofComponents (follow [.root] (names.map .name)) = _
    rw [follow_names]
    rfl
  rw [hnormalize]
  exact hrooted.components_ofComponents

/-- A path that is written the way its components are. -/
def IsSpelled (p : Path) : Prop :=
  p = ofComponents p.components

theorem IsSpelled.eq_of_components {p q : Path} (hp : p.IsSpelled) (hq : q.IsSpelled)
    (h : p.components = q.components) : p = q :=
  calc p = ofComponents p.components := hp
    _ = ofComponents q.components := by rw [h]
    _ = q := hq.symm

theorem IsRooted.isSpelled_ofComponents {cs : List Component} (h : IsRooted cs) :
    (ofComponents cs).IsSpelled := by
  rw [IsSpelled, h.components_ofComponents]

/-- Only the empty path takes over the spelling of its base. -/
theorem isSpelled_normalize {p base : Path} (hbase : base.IsNormal)
    (h : p.components ≠ [] ∨ base.IsSpelled) : (p.normalize base).IsSpelled := by
  by_cases hp : p.components = []
  · have hempty : p.normalize base = base := by rw [normalize, hp]
    rw [hempty]
    exact h.resolve_left fun hne => hne hp
  · rw [normalize_eq_ofComponents hbase hp]
    exact (isRooted_destination hbase p).isSpelled_ofComponents

/-! ## Relative paths -/

theorem stepsFrom?_append_self (base rest : List Component) :
    stepsFrom? false (base ++ rest) base = some rest := by
  induction base with
  | nil => cases rest <;> rfl
  | cons b base ih =>
    rw [List.cons_append, stepsFrom?, if_pos (by simp)]
    exact ih

/-- From a base that never climbs, steps that do not start by climbing lead to
    what lies below the base. -/
theorem eq_append_of_stepsFrom? {base : List Component}
    (hbase : ∀ b ∈ base, b ≠ .current ∧ b ≠ .parent) {target steps : List Component}
    (h : stepsFrom? false target base = some steps) (hsteps : steps.head? ≠ some .parent) :
    target = base ++ steps := by
  induction base generalizing target with
  | nil =>
    cases target with
    | nil => exact Option.some.inj h
    | cons a target => exact Option.some.inj h
  | cons b base ih =>
    have hb := hbase b List.mem_cons_self
    cases target with
    | nil =>
      obtain ⟨more, -, rfl⟩ := Option.map_eq_some_iff.mp h
      exact absurd rfl hsteps
    | cons a target =>
      rw [stepsFrom?] at h
      split at h
      · rename_i heq
        have hab : a = b := by simpa using heq
        rw [hab, ih (fun c hc => hbase c (List.mem_cons_of_mem b hc)) h]
        rfl
      · -- where the two part, the way to the target starts by climbing
        rw [if_neg (by simpa using hb.1), if_neg (by simpa using hb.2)] at h
        cases h
        exact absurd rfl hsteps

/-- Every step to a target climbs or is a component of the target. -/
theorem mem_of_stepsFrom? {started : Bool} {target base steps : List Component}
    (h : stepsFrom? started target base = some steps) {c : Component} (hc : c ∈ steps) :
    c = .parent ∨ c ∈ target := by
  fun_induction stepsFrom? started target base generalizing steps with
  | case1 => exact absurd (Option.some.inj h ▸ hc) List.not_mem_nil
  | case2 => exact .inr (Option.some.inj h ▸ hc)
  | case3 started b base ih =>
    obtain ⟨more, hmore, rfl⟩ := Option.map_eq_some_iff.mp h
    rcases List.mem_cons.mp hc with rfl | hc
    · exact .inl rfl
    · exact ih hmore hc
  | case4 started a target b base _ ih =>
    exact (ih h hc).imp_right (List.mem_cons_of_mem a)
  | case5 started a target b base _ _ ih =>
    obtain ⟨more, hmore, rfl⟩ := Option.map_eq_some_iff.mp h
    rcases List.mem_cons.mp hc with rfl | hc
    · exact .inr List.mem_cons_self
    · exact (ih hmore hc).imp_right (List.mem_cons_of_mem a)
  | case6 => cases h
  | case7 started a target b base =>
    cases h
    rcases List.mem_append.mp hc with hc | hc
    · rcases List.mem_cons.mp hc with rfl | hc
      · exact .inl rfl
      · obtain ⟨d, -, rfl⟩ := List.mem_map.mp hc
        exact .inl rfl
    · exact .inr hc

/-- A directory in normal form leads to a file by a descent just if the file
    lies at that descent below it. -/
theorem relative?_same_iff {file directory rel : Path} (hdirectory : directory.IsNormal)
    (hrel : rel.Descends) :
    (∃ p, relative? file directory = some p ∧ p.same rel = true) ↔
      file.components = directory.components ++ rel.components := by
  have habsolute := hdirectory.isAbsolute
  constructor
  · rintro ⟨p, hp, hsame⟩
    rw [same_iff] at hsame
    rw [relative?, habsolute] at hp
    cases hfile : file.isAbsolute with
    | false =>
      rw [hfile] at hp
      cases hp
    | true =>
      rw [hfile] at hp
      obtain ⟨steps, hsteps, rfl⟩ := Option.map_eq_some_iff.mp hp
      -- both start at the root, so the steps are `..` and what the file has behind it
      have hread : (ofComponents steps).components = steps := by
        apply components_ofComponents
        intro c hc
        obtain ⟨names, hnames⟩ := hdirectory
        rw [components_of_isAbsolute hfile, hnames, stepsFrom?, if_pos (by simp)] at hsteps
        rcases mem_of_stepsFrom? hsteps hc with rfl | hmem
        · exact trivial
        · exact isStep_of_mem_stepsOf hmem
      rw [hread] at hsame
      rw [← hsame]
      refine eq_append_of_stepsFrom? (fun b hb => hdirectory.ne_of_mem hb) hsteps ?_
      intro hparent
      obtain ⟨n, hn⟩ := hrel.eq_name (hsame ▸ List.mem_of_mem_head? hparent)
      cases hn
  · intro hfile
    have hfileAbsolute := isAbsolute_of_append habsolute hfile
    refine ⟨ofComponents rel.components, ?_, ?_⟩
    · rw [relative?, hfileAbsolute, habsolute, hfile, stepsFrom?_append_self]
      rfl
    · rw [same_iff]
      exact components_ofComponents fun c hc => hrel.isStep hc

end CompilerRemarks.Path
