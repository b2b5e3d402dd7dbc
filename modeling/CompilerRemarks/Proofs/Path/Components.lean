/-
  CompilerRemarks.Proofs.Path.Components

  The text of a path and its components. A text is read piece by piece
  between its slashes (`locate_append`), and three things follow from that:

    * joining puts the components of one path behind those of the other
      (`components_join`);
    * steps are read back from the text they are written with
      (`components_ofComponents`, `components_ofComponents_root`);
    * going up takes the last component away (`ancestors_of_concat`), so the
      ancestors of a path are its parent and the ancestors of its parent.
-/
import Mathlib.Data.List.Basic
import Mathlib.Data.List.Induction
import CompilerRemarks.Path.Basic

namespace CompilerRemarks.Path

/-! ## Names and steps -/

/-- A name that stands for itself wherever it comes in a path. -/
structure IsPlain (name : List Char) : Prop where
  ne_nil : name ≠ []
  ne_current : name ≠ ['.']
  ne_parent : name ≠ ['.', '.']
  no_slash : '/' ∉ name

theorem isPlain_iff {name : List Char} :
    IsPlain name ↔ name ≠ [] ∧ name ≠ ['.'] ∧ name ≠ ['.', '.'] ∧ '/' ∉ name :=
  ⟨fun h => ⟨h.ne_nil, h.ne_current, h.ne_parent, h.no_slash⟩,
    fun ⟨hnil, hcurrent, hparent, hslash⟩ => ⟨hnil, hcurrent, hparent, hslash⟩⟩

instance (name : List Char) : Decidable (IsPlain name) :=
  decidable_of_iff _ isPlain_iff.symm

/-- What can stand behind the first component of a path. -/
def Component.IsStep : Component → Prop
  | .root => False
  | .current => False
  | .parent => True
  | .name s => IsPlain s

theorem Component.IsStep.ne_root {c : Component} (h : c.IsStep) : c ≠ .root := by
  rintro rfl
  exact h

theorem Component.IsStep.ne_current {c : Component} (h : c.IsStep) : c ≠ .current := by
  rintro rfl
  exact h

theorem Component.IsStep.no_slash {c : Component} (h : c.IsStep) : '/' ∉ c.chars := by
  cases c with
  | root => exact absurd h id
  | current => exact absurd h id
  | parent => decide
  | name s =>
    have hs : IsPlain s := h
    exact hs.no_slash

/-- A step is read back from its own text, also at the start of a path. -/
theorem component?_chars {c : Component} (h : c.IsStep) (leading : Bool) :
    component? leading c.chars = some c := by
  cases c with
  | root => exact absurd h id
  | current => exact absurd h id
  | parent => rfl
  | name s =>
    have hs : IsPlain s := h
    simp [component?, Component.chars, hs.ne_nil, hs.ne_current, hs.ne_parent]

theorem component?_cases {leading : Bool} {piece : List Char} {c : Component}
    (hpiece : '/' ∉ piece) (h : component? leading piece = some c) :
    c.IsStep ∨ leading = true ∧ c = .current := by
  simp only [component?, List.isEmpty_iff, beq_iff_eq] at h
  split at h
  · cases h
  · rename_i hnil
    split at h
    · split at h
      · cases h
        exact .inr ⟨‹_›, rfl⟩
      · cases h
    · rename_i hcurrent
      split at h
      · cases h
        exact .inl trivial
      · rename_i hparent
        cases h
        exact .inl ⟨hnil, hcurrent, hparent, hpiece⟩

/-! ## Reading piece by piece -/

/-- Reading stops at a slash and starts anew behind it. -/
theorem locate_append (leading : Bool) (piece : List Char) (offset : Nat) (s t : List Char) :
    locate leading piece offset (s ++ '/' :: t) =
      locate leading piece offset s ++ locate false [] (offset + s.length + 1) t := by
  induction s generalizing leading piece offset with
  | nil => simp [locate]
  | cons c s ih =>
    have hoffset : offset + 1 + s.length + 1 = offset + (c :: s).length + 1 := by
      rw [List.length_cons]
      omega
    rw [List.cons_append, locate, locate]
    split
    · rw [ih, hoffset, List.append_assoc]
    · rw [ih, hoffset]

theorem locate_of_not_mem {s : List Char} (h : '/' ∉ s) (leading : Bool) (piece : List Char)
    (offset : Nat) :
    locate leading piece offset s =
      ((component? leading (piece.reverse ++ s)).map (·, offset + s.length)).toList := by
  induction s generalizing piece offset with
  | nil => simp [locate]
  | cons c s ih =>
    have hc : ¬ (c == '/') = true := by
      intro hc
      exact h (beq_iff_eq.mp hc ▸ List.mem_cons_self)
    have hs : '/' ∉ s := fun hs => h (List.mem_cons_of_mem c hs)
    have hoffset : offset + 1 + s.length = offset + (c :: s).length := by
      rw [List.length_cons]
      omega
    rw [locate, if_neg hc, ih hs, hoffset]
    simp

/-- What is read does not depend on where the reading starts. -/
theorem map_fst_locate (leading : Bool) (piece : List Char) (offset offset' : Nat)
    (s : List Char) :
    (locate leading piece offset s).map (·.1) = (locate leading piece offset' s).map (·.1) := by
  induction s generalizing leading piece offset offset' with
  | nil => cases h : component? leading piece.reverse <;> simp [locate, h]
  | cons c s ih =>
    rw [locate, locate]
    split
    · rw [List.map_append, List.map_append, ih false [] (offset + 1) (offset' + 1)]
      cases component? leading piece.reverse <;> rfl
    · exact ih _ _ _ _

theorem mem_locate {leading : Bool} {piece : List Char} {offset : Nat} {s : List Char}
    {c : Component} {e : Nat} (hpiece : '/' ∉ piece) (h : (c, e) ∈ locate leading piece offset s) :
    (c.IsStep ∨ leading = true ∧ c = .current) ∧ e ≤ offset + s.length := by
  -- the piece being read holds no slash, however far the reading has come
  have hread : ∀ {leading : Bool} {piece : List Char} {offset : Nat}, '/' ∉ piece →
      (c, e) ∈ ((component? leading piece.reverse).map (·, offset)).toList →
      (c.IsStep ∨ leading = true ∧ c = .current) ∧ e = offset := by
    intro leading piece offset hpiece h
    obtain ⟨d, hd, heq⟩ := Option.map_eq_some_iff.mp (Option.mem_toList.mp h)
    cases heq
    exact ⟨component?_cases (by simpa using hpiece) hd, rfl⟩
  induction s generalizing leading piece offset with
  | nil =>
    obtain ⟨hc, he⟩ := hread hpiece h
    exact ⟨hc, by omega⟩
  | cons d s ih =>
    rw [List.length_cons]
    rw [locate] at h
    split at h
    · rcases List.mem_append.mp h with h | h
      · obtain ⟨hc, he⟩ := hread hpiece h
        exact ⟨hc, by omega⟩
      · obtain ⟨hc, he⟩ := ih List.not_mem_nil h
        refine ⟨.inl (hc.resolve_right ?_), by omega⟩
        rintro ⟨hfalse, -⟩
        cases hfalse
    · rename_i hd
      have hmore : '/' ∉ d :: piece := by
        intro hmem
        rcases List.mem_cons.mp hmem with heq | hmem
        · exact hd (beq_iff_eq.mpr heq.symm)
        · exact hpiece hmem
      obtain ⟨hc, he⟩ := ih hmore h
      exact ⟨hc, by omega⟩

/-! ## The components of a text -/

/-- The components of a text that stands behind a slash. -/
def stepsOf (s : List Char) : List Component :=
  (locate false [] 0 s).map (·.1)

theorem isStep_of_mem_stepsOf {s : List Char} {c : Component} (h : c ∈ stepsOf s) : c.IsStep := by
  obtain ⟨⟨d, e⟩, hmem, rfl⟩ := List.mem_map.mp h
  have hstep := (mem_locate List.not_mem_nil hmem).1
  exact hstep.resolve_right fun hleading => absurd hleading.1 Bool.false_ne_true

theorem stepsOf_append (s t : List Char) : stepsOf (s ++ '/' :: t) = stepsOf s ++ stepsOf t := by
  rw [stepsOf, stepsOf, stepsOf, locate_append, List.map_append, map_fst_locate false [] _ 0 t]

theorem stepsOf_chars {c : Component} (h : c.IsStep) : stepsOf c.chars = [c] := by
  rw [stepsOf, locate_of_not_mem h.no_slash, List.reverse_nil, List.nil_append,
    component?_chars h]
  rfl

theorem located_cons_slash (s : List Char) : located ('/' :: s) = (.root, 1) :: locate false [] 1 s :=
  rfl

theorem located_of_head {s : List Char} (h : s.head? ≠ some '/') : located s = locate true [] 0 s := by
  cases s with
  | nil => rfl
  | cons c s =>
    have hc : c ≠ '/' := fun hc => h (congrArg some hc)
    rw [located]
    rintro rest heq
    cases heq
    exact hc rfl

/-- Behind a slash that is not the first character come steps. -/
theorem located_append {s : List Char} (h : s ≠ []) (t : List Char) :
    located (s ++ '/' :: t) = located s ++ locate false [] (s.length + 1) t := by
  cases s with
  | nil => exact absurd rfl h
  | cons c s =>
    by_cases hc : c = '/'
    · subst hc
      rw [List.cons_append, located_cons_slash, located_cons_slash, locate_append, List.cons_append,
        List.length_cons, Nat.add_comm 1 s.length]
    · have hhead : ∀ s : List Char, (c :: s).head? ≠ some '/' :=
        fun s heq => hc (Option.some.inj heq)
      rw [List.cons_append, located_of_head (hhead _), located_of_head (hhead s),
        ← List.cons_append, locate_append, Nat.zero_add]

theorem isAbsolute_iff {p : Path} : p.isAbsolute = true ↔ p.text.toList.head? = some '/' :=
  beq_iff_eq

/-- An absolute path is the root and steps. -/
theorem components_of_isAbsolute {p : Path} (h : p.isAbsolute = true) :
    p.components = .root :: stepsOf p.text.toList.tail := by
  obtain ⟨rest, hrest⟩ : ∃ rest, p.text.toList = '/' :: rest := by
    have hhead := isAbsolute_iff.mp h
    cases htext : p.text.toList with
    | nil => simp [htext] at hhead
    | cons c rest =>
      rw [htext] at hhead
      exact ⟨rest, by rw [Option.some.inj hhead]⟩
  rw [components, hrest, located_cons_slash, List.map_cons, map_fst_locate false [] 1 0]
  rfl

theorem components_ne_nil {p : Path} (h : p.isAbsolute = true) : p.components ≠ [] := by
  rw [components_of_isAbsolute h]
  exact List.cons_ne_nil _ _

theorem components_of_relative {p : Path} (h : p.isAbsolute = false) :
    p.components = (locate true [] 0 p.text.toList).map (·.1) := by
  have hhead : p.text.toList.head? ≠ some '/' := by
    intro hhead
    rw [isAbsolute_iff.mpr hhead] at h
    cases h
  rw [components, located_of_head hhead]

theorem isStep_of_mem_relative {p : Path} (h : p.isAbsolute = false) {c : Component}
    (hc : c ∈ p.components) : c.IsStep ∨ c = .current := by
  rw [components_of_relative h] at hc
  obtain ⟨⟨d, e⟩, hd, rfl⟩ := List.mem_map.mp hc
  exact (mem_locate List.not_mem_nil hd).1.imp_right fun hcurrent => hcurrent.2

/-- A path names nothing but plain names. -/
theorem isPlain_of_mem_components {p : Path} {n : List Char} (h : .name n ∈ p.components) :
    IsPlain n := by
  cases hp : p.isAbsolute with
  | true =>
    rw [components_of_isAbsolute hp] at h
    exact isStep_of_mem_stepsOf ((List.mem_cons.mp h).resolve_left nofun)
  | false => exact (isStep_of_mem_relative hp h).resolve_right nofun

theorem isPlain_of_fileName? {p : Path} {name : List Char} (h : p.fileName? = some name) :
    IsPlain name := by
  rw [fileName?] at h
  split at h
  · rename_i last hlast
    cases h
    exact isPlain_of_mem_components (List.mem_of_getLast? hlast)
  · cases h

theorem isAbsolute_iff_root {p : Path} : p.isAbsolute = true ↔ p.components.head? = some .root := by
  constructor
  · intro h
    rw [components_of_isAbsolute h]
    rfl
  · intro h
    by_contra hrelative
    rw [Bool.not_eq_true] at hrelative
    rcases isStep_of_mem_relative hrelative (List.mem_of_mem_head? h) with hstep | hcurrent
    · exact hstep.ne_root rfl
    · cases hcurrent

/-- Paths that are the same are absolute together. -/
theorem isAbsolute_congr {p q : Path} (h : p.components = q.components) :
    p.isAbsolute = q.isAbsolute := by
  rw [Bool.eq_iff_iff, isAbsolute_iff_root, isAbsolute_iff_root, h]

theorem isAbsolute_of_append {p q : Path} (hp : p.isAbsolute = true) {rest : List Component}
    (h : q.components = p.components ++ rest) : q.isAbsolute = true := by
  rw [isAbsolute_iff_root] at hp ⊢
  rw [h, List.head?_append, hp]
  rfl

/-! ## Joining -/

theorem filter_component? (piece : List Char) :
    (component? true piece).toList.filter (· ≠ .current) = (component? false piece).toList := by
  unfold component?
  split
  · rfl
  · split
    · rfl
    · split <;> simp

/-- Only a `.` at the start of a path is lost when it comes behind another. -/
theorem stepsOf_of_relative {p : Path} (h : p.isAbsolute = false) :
    stepsOf p.text.toList = p.components.filter (· ≠ .current) := by
  have hread : ∀ {s : List Char}, '/' ∉ s →
      stepsOf s = ((locate true [] 0 s).map (·.1)).filter (· ≠ .current) := by
    intro s hs
    rw [stepsOf, locate_of_not_mem hs, locate_of_not_mem hs, List.reverse_nil, List.nil_append]
    have hfirst := filter_component? s
    cases htrue : component? true s <;> cases hfalse : component? false s <;>
      simp_all [List.filter]
  have hsteps : ∀ s : List Char, (stepsOf s).filter (· ≠ .current) = stepsOf s := by
    intro s
    apply List.filter_eq_self.mpr
    intro c hc
    exact decide_eq_true (isStep_of_mem_stepsOf hc).ne_current
  rw [components_of_relative h]
  by_cases hslash : '/' ∈ p.text.toList
  · -- the first slash ends the only piece that can be a leading `.`
    obtain ⟨first, rest, htext, hfirst⟩ := List.eq_append_cons_of_mem hslash
    rw [htext, stepsOf_append, locate_append, List.map_append, List.filter_append, hread hfirst,
      map_fst_locate false [] _ 0 rest]
    exact congrArg _ (hsteps rest).symm
  · exact hread hslash

/-- One slash stands between two paths that are joined. It may be the last
    character of the first one already. -/
theorem toList_join {p q : Path} (hq : q.isAbsolute = false) {s : List Char} {c : Char}
    (hlast : p.text.toList = s ++ [c]) :
    (p.join q).text.toList = (if c = '/' then s else s ++ [c]) ++ '/' :: q.text.toList := by
  rw [join, if_neg (by rw [hq]; exact Bool.false_ne_true)]
  simp only [String.toList_ofList, hlast, List.getLast?_concat]
  split
  · rename_i hnone
    cases hnone
  · rename_i hslash
    rw [Option.some.inj hslash, if_pos rfl]
    simp
  · rename_i hother heq
    rw [if_neg fun hc => hother (by rw [← Option.some.inj heq, hc])]
    simp

/-- A path taken from another one goes on from there. -/
theorem components_join {p q : Path} (hp : p.components ≠ []) (hq : q.isAbsolute = false) :
    (p.join q).components = p.components ++ q.components.filter (· ≠ .current) := by
  have htext : p.text.toList ≠ [] := by
    intro htext
    apply hp
    rw [components, htext]
    rfl
  obtain ⟨s, c, hlast⟩ : ∃ s c, p.text.toList = s ++ [c] :=
    ⟨_, _, (List.dropLast_append_getLast htext).symm⟩
  have happend : ∀ {s : List Char}, s ≠ [] → ∀ t,
      (located (s ++ '/' :: t)).map (·.1) = (located s).map (·.1) ++ stepsOf t := by
    intro s hs t
    rw [located_append hs, List.map_append, map_fst_locate false [] _ 0]
    rfl
  rw [← stepsOf_of_relative hq, components, components, toList_join hq hlast, hlast]
  by_cases hc : c = '/'
  · -- the slash between them is the last one of `p`, behind which `p` has nothing
    subst hc
    rw [if_pos rfl]
    by_cases hs : s = []
    · -- and where `p` is that slash alone, it is the root
      subst hs
      rw [List.nil_append, List.nil_append, located_cons_slash, List.map_cons,
        map_fst_locate false [] 1 0]
      rfl
    · rw [happend hs, happend hs, List.append_assoc]
      rfl
  · rw [if_neg hc, happend (List.append_ne_nil_of_right_ne_nil s (List.cons_ne_nil c []))]

/-- What stands behind the last slash of a text is its name. -/
theorem fileName?_append_slash {name : List Char} (h : IsPlain name) (before : List Char) :
    (Path.mk (String.ofList (before ++ '/' :: name))).fileName? = some name := by
  have hname : stepsOf name = [.name name] := stepsOf_chars (c := .name name) h
  obtain ⟨above, habove⟩ : ∃ above,
      (Path.mk (String.ofList (before ++ '/' :: name))).components = above ++ [.name name] := by
    rw [components, String.toList_ofList]
    by_cases hbefore : before = []
    · subst hbefore
      refine ⟨[.root], ?_⟩
      rw [List.nil_append, located_cons_slash, List.map_cons, map_fst_locate false [] 1 0,
        ← stepsOf, hname]
      rfl
    · refine ⟨(located before).map (·.1), ?_⟩
      rw [located_append hbefore, List.map_append, map_fst_locate false [] _ 0, ← stepsOf, hname]
  rw [fileName?, habove, List.getLast?_concat]

/-! ## Writing -/

theorem textOf_cons {c : Component} (h : c ≠ .root) {cs : List Component} (hcs : cs ≠ []) :
    textOf (c :: cs) = c.chars ++ '/' :: textOf cs := by
  cases cs with
  | nil => exact absurd rfl hcs
  | cons d cs =>
    cases c with
    | root => exact absurd rfl h
    | current => rfl
    | parent => rfl
    | name s => rfl

theorem textOf_root (cs : List Component) : textOf (.root :: cs) = '/' :: textOf cs := by
  cases cs <;> rfl

theorem stepsOf_textOf {cs : List Component} (h : ∀ c ∈ cs, c.IsStep) : stepsOf (textOf cs) = cs := by
  induction cs with
  | nil => rfl
  | cons c cs ih =>
    have hc : c.IsStep := h c List.mem_cons_self
    have hcs : stepsOf (textOf cs) = cs := ih fun d hd => h d (List.mem_cons_of_mem c hd)
    by_cases hnil : cs = []
    · subst hnil
      exact stepsOf_chars hc
    · rw [textOf_cons hc.ne_root hnil, stepsOf_append, stepsOf_chars hc, hcs]
      rfl

/-- Steps from the root are read back from their text. -/
theorem components_ofComponents_root {cs : List Component} (h : ∀ c ∈ cs, c.IsStep) :
    (ofComponents (.root :: cs)).components = .root :: cs := by
  have htext : (ofComponents (.root :: cs)).text.toList = '/' :: textOf cs := by
    rw [ofComponents, String.toList_ofList, textOf_root]
  have habsolute : (ofComponents (.root :: cs)).isAbsolute = true := by
    rw [isAbsolute_iff, htext]
    rfl
  rw [components_of_isAbsolute habsolute, htext, List.tail_cons, stepsOf_textOf h]

/-- Steps are read back from their text. -/
theorem components_ofComponents {cs : List Component} (h : ∀ c ∈ cs, c.IsStep) :
    (ofComponents cs).components = cs := by
  cases cs with
  | nil => rfl
  | cons c cs =>
    have hc : c.IsStep := h c List.mem_cons_self
    have hcs : ∀ d ∈ cs, d.IsStep := fun d hd => h d (List.mem_cons_of_mem c hd)
    -- the first step is read as one, because it is no `.`
    have hfirst : located c.chars = [(c, c.chars.length)] := by
      have hhead : c.chars.head? ≠ some '/' :=
        fun hhead => hc.no_slash (List.mem_of_mem_head? hhead)
      rw [located_of_head hhead, locate_of_not_mem hc.no_slash, List.reverse_nil,
        List.nil_append, component?_chars hc, Nat.zero_add]
      rfl
    have hne : c.chars ≠ [] := by
      intro hnil
      rw [hnil] at hfirst
      exact nomatch hfirst
    rw [components, ofComponents, String.toList_ofList]
    by_cases hnil : cs = []
    · subst hnil
      show (located c.chars).map (·.1) = [c]
      rw [hfirst]
      rfl
    · rw [textOf_cons hc.ne_root hnil, located_append hne, hfirst, List.map_append,
        map_fst_locate false [] _ 0]
      exact congrArg (c :: ·) (stepsOf_textOf hcs)

/-! ## Going up -/

/-- A component of a text is the one that was read first, or comes behind it. -/
theorem read_append_cases {read : Option Component} {offset : Nat}
    {rest before after : List (Component × Nat)} {c : Component} {e : Nat}
    (h : (read.map (·, offset)).toList ++ rest = before ++ (c, e) :: after) :
    (before = [] ∧ (read.map (·, offset)).toList = [(c, e)] ∧ e = offset) ∨
      ∃ later, before = (read.map (·, offset)).toList ++ later ∧ rest = later ++ (c, e) :: after := by
  cases read with
  | none => exact .inr ⟨before, rfl, h⟩
  | some d =>
    cases before with
    | nil =>
      obtain ⟨heq, -⟩ := List.cons.inj h
      exact .inl ⟨rfl, congrArg (fun x => [x]) heq, (congrArg Prod.snd heq).symm⟩
    | cons b before =>
      obtain ⟨heq, hrest⟩ := List.cons.inj h
      exact .inr ⟨before, congrArg (· :: before) heq.symm, hrest⟩

/-- The text up to the end of a component is read as the components up to it. -/
theorem locate_take {leading : Bool} {piece : List Char} {offset : Nat} {s : List Char}
    {before after : List (Component × Nat)} {c : Component} {e : Nat}
    (h : locate leading piece offset s = before ++ (c, e) :: after) :
    offset ≤ e ∧ locate leading piece offset (s.take (e - offset)) = before ++ [(c, e)] := by
  induction s generalizing leading piece offset before with
  | nil =>
    rw [locate, ← List.append_nil (Option.toList _)] at h
    obtain ⟨rfl, hread, rfl⟩ | ⟨later, -, hnil⟩ := read_append_cases h
    · rw [List.take_nil, locate, hread]
      exact ⟨Nat.le_refl _, rfl⟩
    · exact absurd hnil.symm (by simp)
  | cons d s ih =>
    rw [locate] at h
    split at h
    · -- a slash ends a piece: the one that is looked for, or one before it
      rename_i hd
      obtain ⟨rfl, hread, rfl⟩ | ⟨later, rfl, hrest⟩ := read_append_cases h
      · rw [Nat.sub_self, List.take_zero, locate, hread]
        exact ⟨Nat.le_refl _, rfl⟩
      · obtain ⟨hle, htake⟩ := ih hrest
        have hshift : e - offset = e - (offset + 1) + 1 := by omega
        rw [hshift, List.take_succ_cons, locate, if_pos hd, htake, List.append_assoc]
        exact ⟨by omega, rfl⟩
    · rename_i hd
      obtain ⟨hle, htake⟩ := ih h
      have hshift : e - offset = e - (offset + 1) + 1 := by omega
      rw [hshift, List.take_succ_cons, locate, if_neg hd, htake]
      exact ⟨by omega, rfl⟩

theorem located_take {s : List Char} {before after : List (Component × Nat)} {c : Component}
    {e : Nat} (h : located s = before ++ (c, e) :: after) :
    located (s.take e) = before ++ [(c, e)] := by
  by_cases hhead : s.head? = some '/'
  · obtain ⟨s, rfl⟩ := List.head?_eq_some_iff.mp hhead
    rw [located_cons_slash] at h
    cases before with
    | nil =>
      obtain ⟨heq, -⟩ := List.cons.inj h
      cases heq
      rfl
    | cons b before =>
      obtain ⟨rfl, hrest⟩ := List.cons.inj h
      obtain ⟨hle, htake⟩ := locate_take hrest
      obtain ⟨e, rfl⟩ : ∃ n, e = n + 1 := ⟨e - 1, by omega⟩
      rw [List.take_succ_cons, located_cons_slash, ← Nat.add_sub_cancel e 1, htake]
      rfl
  · rw [located_of_head hhead] at h
    have htake := (locate_take h).2
    rw [Nat.sub_zero] at htake
    rw [located_of_head, htake]
    intro htaken
    obtain ⟨rest, hrest⟩ := List.head?_eq_some_iff.mp htaken
    exact hhead (List.head?_eq_some_iff.mpr
      ⟨rest ++ s.drop e, by rw [← List.cons_append, ← hrest, List.take_append_drop]⟩)

theorem le_length_of_mem_located {s : List Char} {c : Component} {e : Nat}
    (h : (c, e) ∈ located s) : e ≤ s.length := by
  by_cases hhead : s.head? = some '/'
  · obtain ⟨s, rfl⟩ := List.head?_eq_some_iff.mp hhead
    rw [located_cons_slash] at h
    rw [List.length_cons]
    rcases List.mem_cons.mp h with heq | h
    · cases heq
      omega
    · have hle := (mem_locate List.not_mem_nil h).2
      omega
  · rw [located_of_head hhead] at h
    have hle := (mem_locate List.not_mem_nil h).2
    omega

theorem ancestors_of_located {p : Path} (hp : p.isAbsolute = true)
    {before : List (Component × Nat)} {last : Component × Nat}
    (h : located p.text.toList = before ++ [last]) :
    p.ancestors =
      (before.map (·.2)).reverse.map fun e => ⟨String.ofList (p.text.toList.take e)⟩ := by
  have hhead : (p.text.toList.head? == some '/') = true := hp
  rw [ancestors, ancestorTexts, h, hhead, Bool.true_or, if_pos rfl, List.map_append,
    List.map_singleton, List.dropLast_concat, List.map_map]
  rfl

/-- The ancestors of an absolute path are its parent, which lacks its last
    component, and the ancestors of its parent. Nothing lies above the root. -/
theorem ancestors_of_concat {p : Path} (hp : p.isAbsolute = true) {cs : List Component}
    {c : Component} (h : p.components = cs ++ [c]) :
    cs = [] ∧ p.ancestors = [] ∨
      ∃ q : Path, q.isAbsolute = true ∧ q.components = cs ∧ p.ancestors = q :: q.ancestors := by
  obtain ⟨before, last, hlocated, rfl, hlast⟩ := List.map_eq_append_iff.mp h
  obtain ⟨⟨d, e⟩, rfl, -⟩ := List.map_eq_singleton_iff.mp hlast
  rw [ancestors_of_located hp hlocated]
  rcases List.eq_nil_or_concat before with rfl | ⟨above, ⟨d', e'⟩, rfl⟩
  · exact .inl ⟨rfl, rfl⟩
  · -- the parent is the text up to the end of the component before the last
    refine .inr ⟨⟨String.ofList (p.text.toList.take e')⟩, ?_⟩
    have hsplit : located p.text.toList = above ++ (d', e') :: [(d, e)] := by
      rw [hlocated, List.concat_eq_append, List.append_assoc]
      rfl
    have hparent : located (p.text.toList.take e') = above ++ [(d', e')] := located_take hsplit
    have hcomponents : (⟨String.ofList (p.text.toList.take e')⟩ : Path).components =
        (above.concat (d', e')).map (·.1) := by
      rw [components, String.toList_ofList, hparent, List.concat_eq_append]
    have habsolute : (⟨String.ofList (p.text.toList.take e')⟩ : Path).isAbsolute = true := by
      rw [isAbsolute_iff_root] at hp ⊢
      rw [hcomponents, ← hp, h, List.head?_append_of_ne_nil]
      simp
    refine ⟨habsolute, hcomponents, ?_⟩
    rw [ancestors_of_located habsolute (by rw [String.toList_ofList]; exact hparent),
      List.concat_eq_append, List.map_append, List.reverse_append, List.map_append]
    refine congrArg (List.cons _) (List.map_congr_left ?_)
    -- what ends inside the parent is cut from its text as from that of the path
    intro stop hstop
    obtain ⟨⟨d'', _⟩, hmem, rfl⟩ := List.mem_map.mp (List.mem_reverse.mp hstop)
    have hle : _ ≤ (p.text.toList.take e').length :=
      le_length_of_mem_located (hparent ▸ List.mem_append_left _ hmem)
    rw [List.length_take] at hle
    rw [String.toList_ofList, List.take_take, Nat.min_eq_left (by omega)]

/-- An ancestor has fewer components of the same path. -/
theorem prefix_of_mem_ancestors {p q : Path} (hp : p.isAbsolute = true) (hq : q ∈ p.ancestors) :
    q.isAbsolute = true ∧ q.components <+: p.components := by
  generalize hcs : p.components = cs
  induction cs using List.reverseRecOn generalizing p with
  | nil => exact absurd hcs (components_ne_nil hp)
  | append_singleton cs c ih =>
    obtain ⟨-, hnone⟩ | ⟨above, habove, hcomponents, hancestors⟩ := ancestors_of_concat hp hcs
    · rw [hnone] at hq
      exact absurd hq List.not_mem_nil
    · rw [hancestors] at hq
      rcases List.mem_cons.mp hq with rfl | hq
      · exact ⟨habove, hcomponents ▸ List.prefix_append _ _⟩
      · obtain ⟨habsolute, hprefix⟩ := ih habove hq hcomponents
        exact ⟨habsolute, hprefix.trans (List.prefix_append cs [c])⟩

end CompilerRemarks.Path
