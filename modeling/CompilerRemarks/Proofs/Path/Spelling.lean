/-
  CompilerRemarks.Proofs.Path.Spelling

  Ways to write one path. A path is its pieces with slashes between them
  (`ofPieces_pieces`), and where it leads from a base depends on the steps that
  its pieces are (`destination_eq`). Pieces that lead nowhere can therefore be
  put in anywhere (`Inserts.normalize_eq`): a `.`, or a name with a `..` behind
  it. A `..` at the root leads nowhere either (`normalize_above_root`), joining
  a path to its base does not change where it leads (`normalize_join`), and what
  is normalised stays as it is (`normalize_normalize`).

  Paths that differ by such steps are spellings of one another from a base
  (`Respelled`), and normalisation from that base gives them one text.
-/
import Mathlib.Logic.Relation
import CompilerRemarks.Files.Basic
import CompilerRemarks.Proofs.Path.Normal

namespace CompilerRemarks.Path

/-! ## Pieces -/

/-- The path written with these pieces. -/
def ofPieces (pieces : List (List Char)) : Path :=
  ⟨String.ofList (['/'].intercalate pieces)⟩

theorem intercalate_cons_of_ne_nil (piece : List Char) {pieces : List (List Char)}
    (h : pieces ≠ []) :
    ['/'].intercalate (piece :: pieces) = piece ++ '/' :: ['/'].intercalate pieces := by
  obtain ⟨next, rest, rfl⟩ := List.exists_cons_of_ne_nil h
  rw [List.intercalate_cons_cons, List.append_assoc]
  rfl

theorem piecesFrom_ne_nil (piece s : List Char) : piecesFrom piece s ≠ [] := by
  induction s generalizing piece with
  | nil => exact List.cons_ne_nil _ _
  | cons c s ih =>
    rw [piecesFrom]
    split
    · exact List.cons_ne_nil _ _
    · exact ih _

theorem intercalate_piecesFrom (piece s : List Char) :
    ['/'].intercalate (piecesFrom piece s) = piece.reverse ++ s := by
  induction s generalizing piece with
  | nil => rw [piecesFrom, List.intercalate_singleton, List.append_nil]
  | cons c s ih =>
    rw [piecesFrom]
    split
    · rename_i hc
      rw [intercalate_cons_of_ne_nil _ (piecesFrom_ne_nil _ _), ih, beq_iff_eq.mp hc]
      rfl
    · rw [ih, List.reverse_cons, List.append_assoc]
      rfl

/-- A path is its pieces with slashes between them. -/
theorem ofPieces_pieces (p : Path) : ofPieces p.pieces = p := by
  rw [ofPieces, pieces, intercalate_piecesFrom, List.reverse_nil, List.nil_append,
    String.ofList_toList]

theorem eq_nil_of_intercalate_eq_nil {pieces : List (List Char)}
    (h : ['/'].intercalate pieces = []) : ∀ piece ∈ pieces, piece = [] := by
  cases pieces with
  | nil => exact nofun
  | cons first rest =>
    by_cases hrest : rest = []
    · subst hrest
      rw [List.intercalate_singleton] at h
      exact List.forall_mem_singleton.mpr h
    · rw [intercalate_cons_of_ne_nil _ hrest] at h
      exact absurd (List.append_eq_nil_iff.mp h).2 (List.cons_ne_nil _ _)

theorem text_ofPieces_ne {pieces : List (List Char)} {piece : List Char} (hmem : piece ∈ pieces)
    (hne : piece ≠ []) : (ofPieces pieces).text ≠ "" := by
  intro htext
  refine hne (eq_nil_of_intercalate_eq_nil ?_ piece hmem)
  rw [← String.toList_ofList (l := ['/'].intercalate pieces)]
  exact congrArg String.toList htext

theorem isAbsolute_ofPieces (first : List Char) (rest : List (List Char)) :
    (ofPieces (first :: rest)).isAbsolute =
      match first with
      | [] => !rest.isEmpty
      | c :: _ => c == '/' := by
  rw [isAbsolute, ofPieces, String.toList_ofList]
  cases rest with
  | nil => cases first <;> simp [List.intercalate_singleton]
  | cons next rest =>
    rw [intercalate_cons_of_ne_nil _ (List.cons_ne_nil _ _)]
    cases first <;> simp

theorem stepsOf_intercalate (pieces : List (List Char)) :
    stepsOf (['/'].intercalate pieces) = pieces.flatMap stepsOf := by
  induction pieces with
  | nil => rfl
  | cons piece pieces ih =>
    by_cases hnil : pieces = []
    · subst hnil
      simp [List.intercalate_singleton]
    · rw [intercalate_cons_of_ne_nil _ hnil, stepsOf_append, ih, List.flatMap_cons]

/-! ## Where a path leads -/

/-- A `.` leads nowhere. -/
theorem follow_filter (start steps : List Component) :
    follow start (steps.filter (· ≠ .current)) = follow start steps := by
  induction steps generalizing start with
  | nil => rfl
  | cons c steps ih =>
    by_cases hc : c = .current
    · subst hc
      exact ih start
    · have hkept : decide (c ≠ .current) = true := decide_eq_true hc
      simp only [List.filter_cons, hkept, if_true]
      exact ih _

/-- A path leads from the root or from the base by the steps of its text. -/
theorem destination_eq (p base : Path) :
    p.destination base =
      follow (if p.isAbsolute then [.root] else base.components) (stepsOf p.text.toList) := by
  rw [destination]
  split
  · rename_i hp
    obtain ⟨rest, hrest⟩ := List.head?_eq_some_iff.mp (isAbsolute_iff.mp hp)
    -- the leading slash ends an empty piece, which is no step
    have hsteps : stepsOf ('/' :: rest) = stepsOf rest := stepsOf_append [] rest
    rw [components_of_isAbsolute hp, hrest, List.tail_cons, List.tail_cons, hsteps]
  · rename_i hp
    rw [Bool.not_eq_true] at hp
    rw [stepsOf_of_relative hp, follow_filter]

theorem locate_ne_nil {piece : List Char} (hpiece : piece ≠ []) (offset : Nat) (s : List Char) :
    locate true piece offset s ≠ [] := by
  have hread : ∀ {piece : List Char}, piece ≠ [] → component? true piece.reverse ≠ none := by
    intro piece hne
    have hempty : ¬ piece.reverse.isEmpty = true := by simpa using hne
    rw [component?, if_neg hempty]
    split
    · rw [if_pos rfl]
      exact Option.some_ne_none _
    · split <;> exact Option.some_ne_none _
  induction s generalizing piece offset with
  | nil =>
    obtain ⟨c, hc⟩ := Option.ne_none_iff_exists'.mp (hread hpiece)
    simp [locate, hc]
  | cons d s ih =>
    rw [locate]
    split
    · obtain ⟨c, hc⟩ := Option.ne_none_iff_exists'.mp (hread hpiece)
      simp [hc]
    · exact ih (List.cons_ne_nil _ _) _

/-- Every path but the empty one has components. -/
theorem components_ne_nil_of_text {p : Path} (h : p.text ≠ "") : p.components ≠ [] := by
  cases hp : p.isAbsolute with
  | true => exact components_ne_nil hp
  | false =>
    have hchars : p.text.toList ≠ [] := fun hnil => h (String.toList_eq_nil_iff.mp hnil)
    obtain ⟨c, rest, hrest⟩ := List.exists_cons_of_ne_nil hchars
    have hc : ¬ (c == '/') = true := by
      intro hslash
      rw [isAbsolute, hrest, List.head?_cons, beq_iff_eq.mp hslash] at hp
      cases hp
    rw [components_of_relative hp, hrest, locate, if_neg hc]
    exact mt List.map_eq_nil_iff.mp (locate_ne_nil (List.cons_ne_nil c []) _ _)

/-- The normal form of a path is told from where the path leads. -/
theorem normalize_congr {p q base : Path} (hbase : base.IsNormal) (hp : p.text ≠ "")
    (hq : q.text ≠ "") (h : q.destination base = p.destination base) :
    q.normalize base = p.normalize base := by
  rw [normalize_eq_ofComponents hbase (components_ne_nil_of_text hq), h,
    ← normalize_eq_ofComponents hbase (components_ne_nil_of_text hp)]

/-- From an absolute path there is one way, whatever the base. -/
theorem normalize_of_isAbsolute {p : Path} (hp : p.isAbsolute = true) (base : Path) :
    p.normalize base = ofComponents (p.destination base) := by
  have hcomponents := components_of_isAbsolute hp
  rw [normalize, destination, if_pos hp, hcomponents]
  rfl

/-! ## Normalising again, and joining -/

theorem destination_of_isNormal {p : Path} (hp : p.IsNormal) (base : Path) :
    p.destination base = p.components := by
  have habsolute := hp.isAbsolute
  obtain ⟨names, hnames⟩ := hp
  rw [destination, if_pos habsolute, hnames, List.tail_cons, follow_names]
  rfl

theorem normalize_normalize {p base : Path} (hbase : base.IsNormal) (hp : p.text ≠ "")
    (b : Path) : (p.normalize base).normalize b = p.normalize base := by
  have hnormal := isNormal_normalize hbase p
  have hspelled : (p.normalize base).IsSpelled :=
    isSpelled_normalize hbase (.inl (components_ne_nil_of_text hp))
  rw [normalize_of_isAbsolute hnormal.isAbsolute, destination_of_isNormal hnormal]
  exact hspelled.symm

/-- A path taken from another one leads on from where that one leads. -/
theorem destination_join {rel : Path} (hrel : rel.isAbsolute = false) (p base : Path) :
    (p.join rel).destination base = follow (p.destination base) rel.components := by
  by_cases htext : p.text = ""
  · -- nothing comes before the path, so it is taken from the base itself
    obtain rfl : p = ⟨""⟩ := by rw [← htext]
    have hjoin : (⟨""⟩ : Path).join rel = rel := by
      rw [join, if_neg (by rw [hrel]; exact Bool.false_ne_true)]
      exact congrArg Path.mk String.ofList_toList
    rw [hjoin, destination, hrel]
    rfl
  · have hp := components_ne_nil_of_text htext
    have hjoin := components_join hp hrel
    have habsolute : (p.join rel).isAbsolute = p.isAbsolute := by
      rw [Bool.eq_iff_iff, isAbsolute_iff_root, isAbsolute_iff_root, hjoin,
        List.head?_append_of_ne_nil _ hp]
    rw [destination, destination, habsolute, hjoin, List.tail_append_of_ne_nil hp]
    split <;> rw [follow_append, follow_filter]

theorem text_join_ne {p q : Path} (hq : q.text ≠ "") : (p.join q).text ≠ "" := by
  intro htext
  rw [join] at htext
  split at htext
  · exact hq htext
  · have hchars := String.toList_eq_nil_iff.mpr htext
    rw [String.toList_ofList] at hchars
    exact hq (String.toList_eq_nil_iff.mp (List.append_eq_nil_iff.mp hchars).2)

/-- A path that is joined to its base leads to the same place, whatever it is
    taken from then. -/
theorem normalize_join {p base : Path} (hbase : base.IsNormal) (hp : p.text ≠ "") (b : Path) :
    (base.join p).normalize b = p.normalize base := by
  cases habsolute : p.isAbsolute with
  | true =>
    rw [join, if_pos habsolute, normalize_of_isAbsolute habsolute,
      normalize_of_isAbsolute habsolute, destination, destination, if_pos habsolute,
      if_pos habsolute]
  | false =>
    have hjoin := components_join hbase.components_ne_nil habsolute
    have hjoined := isAbsolute_of_append hbase.isAbsolute hjoin
    rw [normalize_of_isAbsolute hjoined, normalize_eq_ofComponents hbase
      (components_ne_nil_of_text hp), destination_join habsolute, destination_of_isNormal hbase,
      destination, habsolute]
    rfl

/-! ## Pieces that lead nowhere -/

/-- Pieces that lead back to where they start. -/
inductive IsIdle : List (List Char) → Prop where
  | current : IsIdle [['.']]
  | back {name : List Char} (h : IsPlain name) : IsIdle [name, ['.', '.']]

/-- `q` is `p` with pieces put in that lead nowhere. They can stand anywhere but
    before the leading slash. -/
def Inserts (p q : Path) : Prop :=
  ∃ before idle after, p.pieces = before ++ after ∧ IsIdle idle ∧
    q = ofPieces (before ++ idle ++ after) ∧ p.text ≠ "" ∧
    (p.isAbsolute = true → before ≠ [])

theorem IsIdle.exists_cons {idle : List (List Char)} (h : IsIdle idle) :
    ∃ c first rest, idle = (c :: first) :: rest ∧ c ≠ '/' := by
  cases h with
  | current => exact ⟨'.', [], [], rfl, by decide⟩
  | @back name hname =>
    obtain ⟨c, first, rfl⟩ := List.exists_cons_of_ne_nil hname.ne_nil
    exact ⟨c, first, _, rfl, fun hc => hname.no_slash (hc ▸ List.mem_cons_self)⟩

theorem IsIdle.follow_eq {idle : List (List Char)} (h : IsIdle idle) {cs : List Component}
    (hcs : cs ≠ []) : follow cs (idle.flatMap stepsOf) = cs := by
  cases h with
  | current => rfl
  | @back name hname =>
    have hsteps : [name, ['.', '.']].flatMap stepsOf = [.name name, .parent] := by
      have hname' : stepsOf name = [.name name] := stepsOf_chars (c := .name name) hname
      rw [List.flatMap_cons, hname']
      rfl
    rw [hsteps]
    exact stepBack_concat hcs _

theorem follow_ne_nil {start : List Component} (h : IsRooted start) {steps : List Component}
    (hsteps : ∀ c ∈ steps, c.IsStep) : follow start steps ≠ [] := by
  obtain ⟨names, -, heq⟩ := h.follow fun c hc => .inl (hsteps c hc)
  rw [heq]
  exact List.cons_ne_nil _ _

namespace Inserts

variable {p q base : Path}

theorem text_ne (h : Inserts p q) : p.text ≠ "" ∧ q.text ≠ "" := by
  obtain ⟨before, idle, after, -, hidle, rfl, hp, -⟩ := h
  obtain ⟨c, first, rest, rfl, -⟩ := hidle.exists_cons
  have hmem : c :: first ∈ before ++ (c :: first) :: rest ++ after := by simp
  exact ⟨hp, text_ofPieces_ne hmem (List.cons_ne_nil _ _)⟩

/-- Whether a path starts at the root is told from its first piece. -/
theorem isAbsolute_eq (h : Inserts p q) : q.isAbsolute = p.isAbsolute := by
  obtain ⟨before, idle, after, hpieces, hidle, rfl, hp, hbefore⟩ := h
  obtain ⟨c, first, rest, rfl, hc⟩ := hidle.exists_cons
  cases before with
  | nil =>
    have hrelative : p.isAbsolute = false := by
      rw [← Bool.not_eq_true]
      exact fun habsolute => hbefore habsolute rfl
    rw [hrelative, List.nil_append, List.cons_append, isAbsolute_ofPieces]
    exact beq_eq_false_iff_ne.mpr hc
  | cons piece before =>
    rw [← ofPieces_pieces p, hpieces, List.cons_append, List.cons_append, List.cons_append,
      isAbsolute_ofPieces, isAbsolute_ofPieces]
    cases piece with
    | cons d piece => rfl
    | nil =>
      -- an empty piece comes first, and something comes behind it
      have hmore : before ++ after ≠ [] := by
        intro hnil
        apply hp
        rw [← ofPieces_pieces p, hpieces, List.cons_append, hnil]
        rfl
      have hmore' : before ++ (c :: first) :: rest ++ after ≠ [] := by simp
      simp only [List.isEmpty_eq_false_iff.mpr hmore, List.isEmpty_eq_false_iff.mpr hmore']

theorem destination_eq (hbase : base.IsNormal) (h : Inserts p q) :
    q.destination base = p.destination base := by
  have habsolute := h.isAbsolute_eq
  obtain ⟨before, idle, after, hpieces, hidle, rfl, -, -⟩ := h
  have hsteps : ∀ pieces, stepsOf (ofPieces pieces).text.toList = pieces.flatMap stepsOf := by
    intro pieces
    rw [ofPieces, String.toList_ofList, stepsOf_intercalate]
  have hp : stepsOf p.text.toList = (before ++ after).flatMap stepsOf := by
    rw [← ofPieces_pieces p, hpieces, hsteps]
  have hstart : IsRooted (if p.isAbsolute then [.root] else base.components) := by
    split
    · exact ⟨[], nofun, rfl⟩
    · exact hbase.isRooted
  have hbefore : ∀ c ∈ before.flatMap stepsOf, c.IsStep := by
    intro c hc
    obtain ⟨piece, -, hmem⟩ := List.mem_flatMap.mp hc
    exact isStep_of_mem_stepsOf hmem
  rw [Path.destination_eq, Path.destination_eq, habsolute, hp, hsteps, List.flatMap_append,
    List.flatMap_append, List.flatMap_append, follow_append, follow_append, follow_append,
    hidle.follow_eq (follow_ne_nil hstart hbefore)]

/-- What is put in does not change the normal form. -/
theorem normalize_eq (hbase : base.IsNormal) (h : Inserts p q) :
    q.normalize base = p.normalize base :=
  normalize_congr hbase h.text_ne.1 h.text_ne.2 (h.destination_eq hbase)

end Inserts

/-! ## At the root -/

theorem components_parentStep : (⟨".."⟩ : Path).components = [.parent] := by
  decide +kernel

theorem isSpelled_root : (⟨"/"⟩ : Path) = ofComponents [.root] := by
  decide +kernel

/-- From the root a `..` leads to the root. -/
theorem destination_above_root {p base : Path} (h : p.destination base = [.root]) :
    (p.join ⟨".."⟩).destination base = [.root] := by
  rw [destination_join (by decide +kernel), h, components_parentStep]
  rfl

theorem normalize_above_root {p base : Path} (hbase : base.IsNormal)
    (h : (p.normalize base).same ⟨"/"⟩ = true) :
    (p.join ⟨".."⟩).normalize base = ⟨"/"⟩ ∧
      ∀ rel : Path, rel.text ≠ "" → rel.isAbsolute = false →
        ((p.join ⟨".."⟩).join rel).normalize base = (p.join rel).normalize base := by
  have hroot : p.destination base = [.root] := by
    rw [← components_normalize hbase, (same_iff _ _).mp h]
    decide +kernel
  have habove := destination_above_root hroot
  refine ⟨?_, ?_⟩
  · have htext : (p.join ⟨".."⟩).text ≠ "" := text_join_ne (by decide)
    rw [normalize_eq_ofComponents hbase (components_ne_nil_of_text htext), habove]
    exact isSpelled_root.symm
  · intro rel hrel hrelative
    refine normalize_congr hbase (text_join_ne hrel) (text_join_ne hrel) ?_
    rw [destination_join hrelative, destination_join hrelative, habove, hroot]

/-! ## Spellings of one path -/

/-- Another way to write a path that is taken from `base`. -/
inductive Respells (base : Path) : Path → Path → Prop where
  | inserted {p q : Path} (h : Inserts p q) : Respells base p q
  | aboveRoot {p rel : Path} (hroot : (p.normalize base).same ⟨"/"⟩ = true) (hrel : rel.text ≠ "")
      (hrelative : rel.isAbsolute = false) :
      Respells base (p.join rel) ((p.join ⟨".."⟩).join rel)
  | joined {p : Path} (hp : p.text ≠ "") : Respells base p (base.join p)
  | normalised {p : Path} (hp : p.text ≠ "") : Respells base p (p.normalize base)

/-- Paths that are written in one way or another. -/
def Respelled (base : Path) : Path → Path → Prop :=
  Relation.EqvGen (Respells base)

variable {p q base : Path}

theorem text_normalize_ne (hbase : base.IsNormal) (p : Path) : (p.normalize base).text ≠ "" := by
  intro htext
  have hne := (isNormal_normalize hbase p).components_ne_nil
  rw [components, htext] at hne
  exact hne rfl

theorem Respells.text_ne (hbase : base.IsNormal) (h : Respells base p q) :
    p.text ≠ "" ∧ q.text ≠ "" := by
  cases h with
  | inserted h => exact h.text_ne
  | aboveRoot _ hrel => exact ⟨text_join_ne hrel, text_join_ne hrel⟩
  | joined hp => exact ⟨hp, text_join_ne hp⟩
  | normalised hp => exact ⟨hp, text_normalize_ne hbase p⟩

theorem Respells.normalize_eq (hbase : base.IsNormal) (h : Respells base p q) :
    q.normalize base = p.normalize base := by
  cases h with
  | inserted h => exact h.normalize_eq hbase
  | aboveRoot hroot hrel hrelative => exact (normalize_above_root hbase hroot).2 _ hrel hrelative
  | joined hp => exact normalize_join hbase hp base
  | normalised hp => exact normalize_normalize hbase hp base

/-- Spellings of one path have one normal form. -/
theorem Respelled.normalize_eq (hbase : base.IsNormal) (h : Respelled base p q) :
    q.normalize base = p.normalize base := by
  induction h with
  | rel p q h => exact h.normalize_eq hbase
  | refl p => rfl
  | symm p q _ ih => exact ih.symm
  | trans p q r _ _ ihp ihq => exact ihq.trans ihp

/-- They also have one normal form when they are joined to the base first. -/
theorem Respelled.normalize_join_eq (hbase : base.IsNormal) (h : Respelled base p q) :
    (base.join q).normalize base = (base.join p).normalize base := by
  induction h with
  | rel p q h =>
    obtain ⟨hp, hq⟩ := h.text_ne hbase
    rw [normalize_join hbase hq, normalize_join hbase hp, h.normalize_eq hbase]
  | refl p => rfl
  | symm p q _ ih => exact ih.symm
  | trans p q r _ _ ihp ihq => exact ihq.trans ihp

end CompilerRemarks.Path
