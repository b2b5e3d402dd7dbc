/-
  CompilerRemarks.Proofs.Json.RoundTrip

  Reading undoes writing. `Spells` says which texts stand for a value, with any
  white space between their parts: the reader reads each of them as that value
  (`ofChars?_of_spells`), and both ways of writing a value give one of them
  (`spells_compact`, `spells_indented`), as long as its numbers are integers
  and it does not nest too deep (`Fits`).
-/
import CompilerRemarks.Json.Printer
import CompilerRemarks.Json.Reader
import CompilerRemarks.Proofs.Text.Numeral
import Mathlib.Data.List.TakeDrop

namespace CompilerRemarks.Json

variable {gap rest : List Char}

/-! ## White space -/

/-- The white space of JSON. -/
def isSpace (c : Char) : Bool :=
  c == ' ' || c == '\n' || c == '\t' || c == '\r'

theorem skipSpace_append (hgap : ∀ c ∈ gap, isSpace c = true) (s : List Char) :
    skipSpace (gap ++ s) = skipSpace s := by
  induction gap with
  | nil => rfl
  | cons c gap ih =>
    obtain ⟨hc, hrest⟩ := List.forall_mem_cons.mp hgap
    rw [isSpace] at hc
    rw [List.cons_append, skipSpace, if_pos hc, ih hrest]

theorem skipSpace_cons {c : Char} (hc : isSpace c = false) (s : List Char) :
    skipSpace (c :: s) = c :: s := by
  rw [skipSpace, if_neg]
  simpa [isSpace] using hc

theorem skipSpace_of_space (hgap : ∀ c ∈ gap, isSpace c = true) : skipSpace gap = [] := by
  have hskip := skipSpace_append hgap []
  rwa [List.append_nil] at hskip

/-! ## Strings -/

theorem hex4?_control : ∀ n < 32,
    hex4? '0' '0' (Text.hexDigit (n / 16)) (Text.hexDigit (n % 16)) = some n := by
  decide

theorem stringBody?_cons {c : Char} (hquote : c ≠ '"') (hslash : c ≠ '\\') (hplain : 32 ≤ c.toNat)
    (acc s : List Char) : stringBody? acc (c :: s) = stringBody? (c :: acc) s := by
  rw [stringBody?]
  · rw [if_neg]
    simp only [Bool.or_eq_true, decide_eq_true_eq, beq_iff_eq, hslash, or_false]
    omega
  · exact hquote
  -- what is left are the escapes
  · exact fun _ _ _ _ _ h => absurd h hslash
  · exact fun _ _ h => absurd h hslash

/-- An escaped character is read as that character. -/
theorem stringBody?_escapeChar (c : Char) (acc s : List Char) :
    stringBody? acc (escapeChar c ++ s) = stringBody? (c :: acc) s := by
  unfold escapeChar
  split
  case isTrue h => simp [beq_iff_eq.mp h, stringBody?, escape?]
  case isFalse hquote =>
  split
  case isTrue h => simp [beq_iff_eq.mp h, stringBody?, escape?]
  case isFalse hslash =>
  split
  case isTrue h => simp [beq_iff_eq.mp h, stringBody?, escape?]
  case isFalse =>
  split
  case isTrue h => simp [beq_iff_eq.mp h, stringBody?, escape?]
  case isFalse =>
  split
  case isTrue h => simp [beq_iff_eq.mp h, stringBody?, escape?]
  case isFalse =>
  split
  case isTrue h => simp [beq_iff_eq.mp h, stringBody?, escape?]
  case isFalse =>
  split
  case isTrue h => simp [beq_iff_eq.mp h, stringBody?, escape?]
  case isFalse =>
  split
  case isTrue hcontrol =>
    -- four hexadecimal digits, the first two of them zeros
    have hhigh : ¬ 55296 ≤ c.toNat := by omega
    have hlow : ¬ 56320 ≤ c.toNat := by omega
    simp [stringBody?, hex4?_control c.toNat hcontrol, hhigh, hlow, Char.ofNat_toNat]
  case isFalse hplain =>
    rw [List.singleton_append, stringBody?_cons (by simpa using hquote) (by simpa using hslash)
      (by omega)]

theorem stringBody?_escaped (s acc rest : List Char) :
    stringBody? acc (s.flatMap escapeChar ++ '"' :: rest) = some (acc.reverse ++ s, rest) := by
  induction s generalizing acc with
  | nil => simp [stringBody?]
  | cons c s ih =>
    rw [List.flatMap_cons, List.append_assoc, stringBody?_escapeChar, ih, List.reverse_cons,
      List.append_assoc, List.singleton_append]

/-! ## Numbers -/

/-- The integers that are read as such: those of 64 bits, and zero only
    without a sign. -/
def Number.IsInteger : Number → Prop
  | .natural n => n < Nat.pow 2 64
  | .negated n => 0 < n ∧ n ≤ Nat.pow 2 63
  | .decimal _ => False

/-- What comes after a number must not read as more of it. -/
def Closes (rest : List Char) : Prop :=
  ∀ c ∈ rest.head?, c.isDigit = false ∧ c ≠ '.' ∧ c ≠ 'e' ∧ c ≠ 'E'

theorem spanDigits_append {digits : List Char} (hdigits : ∀ c ∈ digits, c.isDigit = true)
    (hrest : Closes rest) : spanDigits (digits ++ rest) = (digits, rest) := by
  have hspan : spanDigits (digits ++ rest) = (digits ++ rest).span Char.isDigit := rfl
  rw [hspan, List.span_eq_takeWhile_dropWhile, List.takeWhile_append_of_pos hdigits,
    List.dropWhile_append_of_pos hdigits]
  cases rest with
  | nil => rw [List.takeWhile_nil, List.append_nil, List.dropWhile_nil]
  | cons c rest =>
    have hc : c.isDigit = false := (hrest c rfl).1
    simp [hc]

theorem fraction?_of_closes (hrest : Closes rest) : fraction? rest = some ([], rest) := by
  cases rest with
  | nil => rfl
  | cons c rest =>
    have hc : c ≠ '.' := (hrest c rfl).2.1
    simp [fraction?, hc]

theorem exponent?_of_closes (hrest : Closes rest) : exponent? rest = some (none, rest) := by
  cases rest with
  | nil => rfl
  | cons c rest =>
    obtain ⟨-, -, hlower, hupper⟩ := hrest c rfl
    simp [exponent?, hlower, hupper]

/-- Only zero starts with the digit zero. -/
theorem head?_toDigits {n : Nat} (hn : 0 < n) : (Nat.toDigits 10 n).head? ≠ some '0' := by
  induction n using Nat.strongRecOn with
  | ind n ih =>
    rw [Nat.toDigits_eq_if (by decide)]
    split
    case isTrue hlt =>
      simp only [List.head?_cons, ne_eq, Option.some.injEq, Nat.digitChar_eq_zero]
      omega
    case isFalse hge =>
      have hsmaller : n / 10 < n := Nat.div_lt_self hn (by decide)
      rw [List.head?_append, Option.or_of_isSome (List.isSome_head?.mpr Nat.toDigits_ne_nil)]
      exact ih (n / 10) hsmaller (by omega)

theorem hasLeadingZero_toDigits (n : Nat) :
    ((Nat.toDigits 10 n).head? == some '0' && decide ((Nat.toDigits 10 n).length > 1)) = false := by
  rcases Nat.eq_zero_or_pos n with rfl | hn
  · decide
  · rw [Bool.and_eq_false_iff]
    exact Or.inl (beq_eq_false_iff_ne.mpr (head?_toDigits hn))

theorem isDigit_of_mem_toDigits {n : Nat} {c : Char} (hc : c ∈ Nat.toDigits 10 n) :
    c.isDigit = true :=
  Nat.isDigit_of_mem_toDigits (by decide) (by decide) hc

theorem number?_toDigits {n : Nat} (hn : n < Nat.pow 2 64) (hrest : Closes rest) :
    number? (Nat.toDigits 10 n ++ rest) = some (.natural n, rest) := by
  have hclass : classify? false (Nat.toDigits 10 n) [] none = some (.natural n) := by
    simp [classify?, Text.digits?_toDigits, hn]
  unfold number?
  split
  case h_1 negative s hsign =>
    split at hsign
    case h_1 tail hcons =>
      -- a sign is no digit
      have hne : Nat.toDigits 10 n ≠ [] := Nat.toDigits_ne_nil
      obtain ⟨d, digits, hdigits⟩ := List.exists_cons_of_ne_nil hne
      rw [hdigits, List.cons_append] at hcons
      cases hcons
      have hd := isDigit_of_mem_toDigits (hdigits ▸ List.mem_cons_self)
      exact absurd hd (by decide)
    case h_2 =>
      cases hsign
      simp [spanDigits_append (fun c hc => isDigit_of_mem_toDigits hc) hrest,
        hasLeadingZero_toDigits, fraction?_of_closes hrest, exponent?_of_closes hrest, hclass]

theorem number?_negated {n : Nat} (hpos : 0 < n) (hn : n ≤ Nat.pow 2 63) (hrest : Closes rest) :
    number? ('-' :: Nat.toDigits 10 n ++ rest) = some (.negated n, rest) := by
  have hclass : classify? true (Nat.toDigits 10 n) [] none = some (.negated n) := by
    simp [classify?, Text.digits?_toDigits, hpos, hn]
  simp [number?, spanDigits_append (fun c hc => isDigit_of_mem_toDigits hc) hrest,
    hasLeadingZero_toDigits, fraction?_of_closes hrest, exponent?_of_closes hrest, hclass]

/-- An integer is read as what it was written for. -/
theorem number?_text {n : Number} (hn : n.IsInteger) (hrest : Closes rest) :
    number? (n.text ++ rest) = some (n, rest) := by
  cases n with
  | natural n => exact number?_toDigits hn hrest
  | negated n => exact number?_negated hn.1 hn.2 hrest
  | decimal d => exact hn.elim

/-! ## Texts of a value -/

mutual

/-- A text that stands for a value; arrays and objects nest at most as deep as
    the number says. -/
inductive Spells : Nat → Json → List Char → Prop where
  | null (depth : Nat) : Spells depth .null ['n', 'u', 'l', 'l']
  | yes (depth : Nat) : Spells depth (.bool true) ['t', 'r', 'u', 'e']
  | no (depth : Nat) : Spells depth (.bool false) ['f', 'a', 'l', 's', 'e']
  | number (depth : Nat) {n : Number} (hn : n.IsInteger) : Spells depth (.number n) n.text
  | string (depth : Nat) (s : String) : Spells depth (.string s) (stringText s)
  | emptyArray (depth : Nat) {gap : List Char} (hgap : ∀ c ∈ gap, isSpace c = true) :
      Spells (depth + 1) (.array []) ('[' :: (gap ++ [']']))
  | array {depth : Nat} {items : List Json} {gap s : List Char}
      (hgap : ∀ c ∈ gap, isSpace c = true) (hitems : SpellsItems depth items s) :
      Spells (depth + 1) (.array items) ('[' :: (gap ++ s))
  | emptyObject (depth : Nat) {gap : List Char} (hgap : ∀ c ∈ gap, isSpace c = true) :
      Spells (depth + 1) (.object []) ('\x7b' :: (gap ++ ['\x7d']))
  | object {depth : Nat} {members : List (String × Json)} {gap s : List Char}
      (hgap : ∀ c ∈ gap, isSpace c = true) (hmembers : SpellsMembers depth members s) :
      Spells (depth + 1) (.object members) ('\x7b' :: (gap ++ s))

/-- A text of one item or more up to the closing bracket. -/
inductive SpellsItems : Nat → List Json → List Char → Prop where
  | last {depth : Nat} {item : Json} {s gap : List Char} (hitem : Spells depth item s)
      (hgap : ∀ c ∈ gap, isSpace c = true) : SpellsItems depth [item] (s ++ (gap ++ [']']))
  | cons {depth : Nat} {item : Json} {items : List Json} {s gap gap' t : List Char}
      (hitem : Spells depth item s) (hgap : ∀ c ∈ gap, isSpace c = true)
      (hgap' : ∀ c ∈ gap', isSpace c = true) (hitems : SpellsItems depth items t) :
      SpellsItems depth (item :: items) (s ++ (gap ++ ',' :: (gap' ++ t)))

/-- A text of one member or more up to the closing brace. -/
inductive SpellsMembers : Nat → List (String × Json) → List Char → Prop where
  | last {depth : Nat} (name : String) {value : Json} {gap s gap' : List Char}
      (hgap : ∀ c ∈ gap, isSpace c = true) (hvalue : Spells depth value s)
      (hgap' : ∀ c ∈ gap', isSpace c = true) :
      SpellsMembers depth [(name, value)]
        (stringText name ++ ':' :: (gap ++ (s ++ (gap' ++ ['\x7d']))))
  | cons {depth : Nat} (name : String) {value : Json} {members : List (String × Json)}
      {gap s gap' gap'' t : List Char}
      (hgap : ∀ c ∈ gap, isSpace c = true) (hvalue : Spells depth value s)
      (hgap' : ∀ c ∈ gap', isSpace c = true) (hgap'' : ∀ c ∈ gap'', isSpace c = true)
      (hmembers : SpellsMembers depth members t) :
      SpellsMembers depth ((name, value) :: members)
        (stringText name ++ ':' :: (gap ++ (s ++ (gap' ++ ',' :: (gap'' ++ t)))))

end

/-! ## Reading them -/

theorem Closes.cons {c : Char} (hdigit : c.isDigit = false) (hpoint : c ≠ '.') (hlower : c ≠ 'e')
    (hupper : c ≠ 'E') (rest : List Char) : Closes (c :: rest) := by
  intro d hd
  cases hd
  exact ⟨hdigit, hpoint, hlower, hupper⟩

theorem Closes.append_space (hgap : ∀ c ∈ gap, isSpace c = true) (hrest : Closes rest) :
    Closes (gap ++ rest) := by
  cases gap with
  | nil => exact hrest
  | cons c gap =>
    have hc : isSpace c = true := hgap c List.mem_cons_self
    have hne : ∀ d : Char, isSpace d = false → c ≠ d := by
      rintro d hd rfl
      exact Bool.false_ne_true (hd.symm.trans hc)
    have hdigit : c.isDigit = false := by
      simp only [isSpace, Bool.or_eq_true, beq_iff_eq] at hc
      rcases hc with ((rfl | rfl) | rfl) | rfl <;> rfl
    exact .cons hdigit (hne '.' rfl) (hne 'e' rfl) (hne 'E' rfl) _

/-- What separates or ends items and members is found behind white space, and
    no number runs into it. -/
theorem delimiter_after_space {c : Char} (hc : c = ',' ∨ c = ']' ∨ c = '\x7d')
    (hgap : ∀ c ∈ gap, isSpace c = true) (rest : List Char) :
    skipSpace (gap ++ c :: rest) = c :: rest ∧ Closes (gap ++ c :: rest) := by
  rw [skipSpace_append hgap]
  rcases hc with rfl | rfl | rfl <;>
    exact ⟨skipSpace_cons (by decide) rest,
      .append_space hgap (.cons rfl (by decide) (by decide) (by decide) rest)⟩

/-- Leading white space is skipped. -/
theorem value?_space (hgap : ∀ c ∈ gap, isSpace c = true) (fuel depth : Nat) (s : List Char) :
    value? fuel depth (gap ++ s) = value? fuel depth s := by
  cases fuel with
  | zero => simp [value?]
  | succ fuel => rw [value?, value?, skipSpace_append hgap]

theorem items?_space (hgap : ∀ c ∈ gap, isSpace c = true) (fuel depth : Nat) (s : List Char) :
    items? fuel depth (gap ++ s) = items? fuel depth s := by
  cases fuel with
  | zero => simp [items?]
  | succ fuel => rw [items?, items?, value?_space hgap]

theorem members?_space (hgap : ∀ c ∈ gap, isSpace c = true) (fuel depth : Nat) (s : List Char) :
    members? fuel depth (gap ++ s) = members? fuel depth s := by
  cases fuel with
  | zero => simp [members?]
  | succ fuel => rw [members?, members?, skipSpace_append hgap]

theorem stringBody?_stringText (s : String) (rest : List Char) :
    ∃ body, stringText s ++ rest = '"' :: body ∧ stringBody? [] body = some (s.toList, rest) := by
  refine ⟨s.toList.flatMap escapeChar ++ '"' :: rest, by simp [stringText], ?_⟩
  rw [stringBody?_escaped, List.reverse_nil, List.nil_append]

theorem Number.head_text {n : Number} (hn : n.IsInteger) :
    ∃ c t, n.text = c :: t ∧ (c = '-' ∨ c.isDigit = true) := by
  cases n with
  | natural n =>
    obtain ⟨d, t, ht⟩ := List.exists_cons_of_ne_nil (Nat.toDigits_ne_nil (n := n) (b := 10))
    exact ⟨d, t, ht, Or.inr (isDigit_of_mem_toDigits (ht ▸ List.mem_cons_self))⟩
  | negated n => exact ⟨'-', _, rfl, Or.inl rfl⟩
  | decimal d => exact hn.elim

theorem ne_of_numeral {c d : Char} (hc : c = '-' ∨ c.isDigit = true) (hsign : d ≠ '-')
    (hdigit : d.isDigit = false) : c ≠ d := by
  rintro rfl
  rcases hc with rfl | hc
  · exact hsign rfl
  · exact Bool.false_ne_true (hdigit.symm.trans hc)

theorem isSpace_of_numeral {c : Char} (hc : c = '-' ∨ c.isDigit = true) : isSpace c = false := by
  simp [isSpace, ne_of_numeral hc (by decide : ' ' ≠ '-') rfl,
    ne_of_numeral hc (by decide : '\n' ≠ '-') rfl, ne_of_numeral hc (by decide : '\t' ≠ '-') rfl,
    ne_of_numeral hc (by decide : '\r' ≠ '-') rfl]

theorem value?_number {n : Number} (hn : n.IsInteger) (hrest : Closes rest) (fuel depth : Nat) :
    value? (fuel + 1) depth (n.text ++ rest) = some (.number n, rest) := by
  have hnumber := number?_text hn hrest
  obtain ⟨c, t, ht, hc⟩ := Number.head_text hn
  have hne : ∀ d : Char, d ≠ '-' → d.isDigit = false → c ≠ d :=
    fun d => ne_of_numeral hc
  rw [ht, List.cons_append] at hnumber ⊢
  rw [value?, skipSpace_cons (isSpace_of_numeral hc)]
  simp [hne '"' (by decide) rfl, hne '[' (by decide) rfl, hne '\x7b' (by decide) rfl,
    hne 't' (by decide) rfl, hne 'f' (by decide) rfl, hne 'n' (by decide) rfl, hnumber]

theorem value?_string (s : String) (fuel depth : Nat) (rest : List Char) :
    value? (fuel + 1) depth (stringText s ++ rest) = some (.string s, rest) := by
  obtain ⟨body, htext, hbody⟩ := stringBody?_stringText s rest
  rw [htext, value?, skipSpace_cons (by decide)]
  simp [hbody]

/-- A text that stands for a value begins with no white space, and not like
    the end of an array. -/
theorem Spells.head {depth : Nat} {j : Json} {s : List Char} (h : Spells depth j s) :
    ∃ c t, s = c :: t ∧ isSpace c = false ∧ c ≠ ']' := by
  cases h with
  | number _ hn =>
    obtain ⟨c, t, ht, hc⟩ := Number.head_text hn
    exact ⟨c, t, ht, isSpace_of_numeral hc, ne_of_numeral hc (by decide) rfl⟩
  | _ => exact ⟨_, _, rfl, by decide, by decide⟩

theorem SpellsItems.head {depth : Nat} {items : List Json} {s : List Char}
    (h : SpellsItems depth items s) : ∃ c t, s = c :: t ∧ isSpace c = false ∧ c ≠ ']' := by
  cases h with
  | last hitem hgap =>
    obtain ⟨c, t, rfl, hc⟩ := hitem.head
    exact ⟨c, _, rfl, hc⟩
  | cons hitem hgap hgap' hitems =>
    obtain ⟨c, t, rfl, hc⟩ := hitem.head
    exact ⟨c, _, rfl, hc⟩

theorem SpellsMembers.head {depth : Nat} {members : List (String × Json)} {s : List Char}
    (h : SpellsMembers depth members s) : ∃ t, s = '"' :: t := by
  cases h <;> exact ⟨_, rfl⟩

theorem value?_array {c : Char} {t : List Char} (hspace : isSpace c = false) (hne : c ≠ ']')
    (hgap : ∀ c ∈ gap, isSpace c = true) (fuel depth : Nat) :
    value? (fuel + 1) (depth + 1) ('[' :: (gap ++ c :: t)) =
      (items? fuel depth (c :: t)).map fun (items, rest) => (.array items, rest) := by
  rw [value?, skipSpace_cons (by decide)]
  simp [skipSpace_append hgap, skipSpace_cons hspace, hne]

theorem value?_object {t : List Char} (hgap : ∀ c ∈ gap, isSpace c = true) (fuel depth : Nat) :
    value? (fuel + 1) (depth + 1) ('\x7b' :: (gap ++ '"' :: t)) =
      (members? fuel depth ('"' :: t)).map fun (members, rest) => (.object members, rest) := by
  have hquote : skipSpace ('"' :: t) = '"' :: t := skipSpace_cons (by decide) t
  rw [value?, skipSpace_cons (by decide)]
  simp [skipSpace_append hgap, hquote]

/-- With this much fuel, a text that stands for a value is read as it. Every
    character takes two units at most: one for the list that it is in and one
    for the value that it starts. -/
def ReadsValues (fuel : Nat) : Prop :=
  ∀ {depth : Nat} {j : Json} {s : List Char} (rest : List Char), Spells depth j s → Closes rest →
    2 * (s ++ rest).length < fuel → value? fuel depth (s ++ rest) = some (j, rest)

/-- So is a text of items; the unit more is for the list itself. -/
def ReadsItems (fuel : Nat) : Prop :=
  ∀ {depth : Nat} {items : List Json} {s : List Char} (rest : List Char),
    SpellsItems depth items s → 2 * (s ++ rest).length + 1 < fuel →
      items? fuel depth (s ++ rest) = some (items, rest)

/-- And a text of members. -/
def ReadsMembers (fuel : Nat) : Prop :=
  ∀ {depth : Nat} {members : List (String × Json)} {s : List Char} (rest : List Char),
    SpellsMembers depth members s → 2 * (s ++ rest).length + 1 < fuel →
      members? fuel depth (s ++ rest) = some (members, rest)

theorem readsValues_succ {fuel : Nat} (hitems : ReadsItems fuel) (hmembers : ReadsMembers fuel) :
    ReadsValues (fuel + 1) := by
  intro depth j s rest h hrest hfuel
  cases h with
  | null => simp [value?, skipSpace, dropWord?]
  | yes => simp [value?, skipSpace, dropWord?]
  | no => simp [value?, skipSpace, dropWord?]
  | number _ hn => exact value?_number hn hrest fuel depth
  | string _ s => exact value?_string s fuel depth rest
  -- an empty array ends at once; in any other, the first item starts
  | emptyArray depth hgap =>
    obtain ⟨hend, -⟩ := delimiter_after_space (.inr (.inl rfl)) hgap rest
    rw [List.cons_append, value?, skipSpace_cons (by decide)]
    simp [hend]
  | array hgap h =>
    obtain ⟨c, t, rfl, hspace, hne⟩ := h.head
    have hread := hitems rest h (by simp at hfuel ⊢; omega)
    rw [List.cons_append] at hread
    rw [List.cons_append, List.append_assoc, List.cons_append, value?_array hspace hne hgap, hread]
    rfl
  | emptyObject depth hgap =>
    obtain ⟨hend, -⟩ := delimiter_after_space (.inr (.inr rfl)) hgap rest
    rw [List.cons_append, value?, skipSpace_cons (by decide)]
    simp [hend]
  | object hgap h =>
    obtain ⟨t, rfl⟩ := h.head
    have hread := hmembers rest h (by simp at hfuel ⊢; omega)
    rw [List.cons_append] at hread
    rw [List.cons_append, List.append_assoc, List.cons_append, value?_object hgap, hread]
    rfl

theorem readsItems_succ {fuel : Nat} (hvalues : ReadsValues fuel) (hitems : ReadsItems fuel) :
    ReadsItems (fuel + 1) := by
  intro depth items s rest h hfuel
  cases h with
  | last hitem hgap =>
    rename_i item s gap
    obtain ⟨hend, hcloses⟩ := delimiter_after_space (.inr (.inl rfl)) hgap rest
    have hread := hvalues (gap ++ ']' :: rest) hitem hcloses (by simp at hfuel ⊢; omega)
    rw [List.append_assoc, List.append_assoc, List.singleton_append, items?, hread]
    simp [hend]
  | cons hitem hgap hgap' h =>
    rename_i item items s gap gap' t
    obtain ⟨hcomma, hcloses⟩ := delimiter_after_space (.inl rfl) hgap (gap' ++ (t ++ rest))
    have hread := hvalues (gap ++ ',' :: (gap' ++ (t ++ rest))) hitem hcloses
      (by simp at hfuel ⊢; omega)
    have hmore := hitems rest h (by simp at hfuel ⊢; omega)
    rw [List.append_assoc, List.append_assoc, List.cons_append, List.append_assoc, items?, hread]
    simp [hcomma, items?_space hgap', hmore]

/-- A member is its name, a colon and its value; what follows says whether it
    is the last one. -/
theorem members?_member (name : String) {value : Json} {fuel depth : Nat} {s t : List Char}
    (hgap : ∀ c ∈ gap, isSpace c = true) (hread : value? fuel depth s = some (value, t)) :
    (∀ rest, skipSpace t = '\x7d' :: rest →
      members? (fuel + 1) depth (stringText name ++ ':' :: (gap ++ s)) =
        some ([(name, value)], rest)) ∧
    (∀ more members rest, skipSpace t = ',' :: more →
      members? fuel depth more = some (members, rest) →
      members? (fuel + 1) depth (stringText name ++ ':' :: (gap ++ s)) =
        some ((name, value) :: members, rest)) := by
  obtain ⟨body, htext, hbody⟩ := stringBody?_stringText name (':' :: (gap ++ s))
  have hquote : skipSpace ('"' :: body) = '"' :: body := skipSpace_cons (by decide) body
  have hcolon : skipSpace (':' :: (gap ++ s)) = ':' :: (gap ++ s) := skipSpace_cons (by decide) _
  refine ⟨fun rest hend => ?_, fun more members rest hcomma hmore => ?_⟩
  · simp [htext, members?, hquote, hbody, hcolon, value?_space hgap, hread, hend]
  · simp [htext, members?, hquote, hbody, hcolon, value?_space hgap, hread, hcomma, hmore]

theorem readsMembers_succ {fuel : Nat} (hvalues : ReadsValues fuel)
    (hmembers : ReadsMembers fuel) : ReadsMembers (fuel + 1) := by
  intro depth members s rest h hfuel
  cases h with
  | last name hgap hvalue hgap' =>
    rename_i value gap s gap'
    obtain ⟨hend, hcloses⟩ := delimiter_after_space (.inr (.inr rfl)) hgap' rest
    have hread := hvalues (gap' ++ '\x7d' :: rest) hvalue hcloses (by simp at hfuel ⊢; omega)
    have hmember := (members?_member name hgap hread).1 rest hend
    simpa using hmember
  | cons name hgap hvalue hgap' hgap'' h =>
    rename_i value members gap s gap' gap'' t
    obtain ⟨hcomma, hcloses⟩ := delimiter_after_space (.inl rfl) hgap' (gap'' ++ (t ++ rest))
    have hread := hvalues (gap' ++ ',' :: (gap'' ++ (t ++ rest))) hvalue hcloses
      (by simp at hfuel ⊢; omega)
    have hmore : members? fuel depth (gap'' ++ (t ++ rest)) = some (members, rest) := by
      rw [members?_space hgap'']
      exact hmembers rest h (by simp at hfuel ⊢; omega)
    have hmember := (members?_member name hgap hread).2 _ members rest hcomma hmore
    simpa using hmember

theorem reads (fuel : Nat) : ReadsValues fuel ∧ ReadsItems fuel ∧ ReadsMembers fuel := by
  -- the three readers call each other with one unit less, so the induction is
  -- on the fuel and not on how the text came about
  induction fuel with
  | zero =>
    exact ⟨fun _ _ _ h => absurd h (Nat.not_lt_zero _), fun _ _ h => absurd h (Nat.not_lt_zero _),
      fun _ _ h => absurd h (Nat.not_lt_zero _)⟩
  | succ fuel ih =>
    obtain ⟨hvalues, hitems, hmembers⟩ := ih
    exact ⟨readsValues_succ hitems hmembers, readsItems_succ hvalues hitems,
      readsMembers_succ hvalues hmembers⟩

/-- A text that stands for a value is read as that value, with white space
    around it or none. -/
theorem ofChars?_of_spells {j : Json} {s gap gap' : List Char} (h : Spells maxDepth j s)
    (hgap : ∀ c ∈ gap, isSpace c = true) (hgap' : ∀ c ∈ gap', isSpace c = true) :
    ofChars? (gap ++ (s ++ gap')) = some j := by
  have hend : Closes gap' := by
    have hnil : Closes [] := fun c hc => nomatch hc
    have happend := hnil.append_space hgap'
    rwa [List.append_nil] at happend
  have hread : value? (2 * (gap ++ (s ++ gap')).length + 2) maxDepth (gap ++ (s ++ gap')) =
      some (j, gap') := by
    rw [value?_space hgap]
    exact (reads _).1 gap' h hend (by simp; omega)
  rw [ofChars?, hread]
  simp [skipSpace_of_space hgap']

/-! ## Writing them -/

/-- The values that survive writing: their numbers are integers, and they nest
    at most as deep as the number says. -/
inductive Fits : Nat → Json → Prop where
  | null (depth : Nat) : Fits depth .null
  | bool (depth : Nat) (b : Bool) : Fits depth (.bool b)
  | number (depth : Nat) {n : Number} (hn : n.IsInteger) : Fits depth (.number n)
  | string (depth : Nat) (s : String) : Fits depth (.string s)
  | array {depth : Nat} {items : List Json} (hitems : ∀ item ∈ items, Fits depth item) :
      Fits (depth + 1) (.array items)
  | object {depth : Nat} {members : List (String × Json)}
      (hmembers : ∀ member ∈ members, Fits depth member.2) : Fits (depth + 1) (.object members)

theorem isSpace_nil : ∀ c ∈ ([] : List Char), isSpace c = true :=
  List.forall_mem_nil _

theorem isSpace_breakAt (level : Nat) : ∀ c ∈ breakAt level, isSpace c = true := by
  intro c hc
  rcases List.mem_cons.mp hc with rfl | hc
  · rfl
  · rw [List.eq_of_mem_replicate hc]
    rfl

theorem spellsItems_compact {depth : Nat} (item : Json) (items : List Json)
    (hitems : ∀ j ∈ item :: items, Spells depth j j.compact) :
    SpellsItems depth (item :: items) (item.compact ++ compactItems items) := by
  induction items generalizing item with
  | nil => exact .last (hitems item List.mem_cons_self) isSpace_nil
  | cons next items ih =>
    obtain ⟨hitem, hmore⟩ := List.forall_mem_cons.mp hitems
    have h := SpellsItems.cons hitem isSpace_nil isSpace_nil (ih next hmore)
    simpa [compactItems] using h

theorem spellsMembers_compact {depth : Nat} (name : String) (value : Json)
    (members : List (String × Json))
    (hmembers : ∀ m ∈ (name, value) :: members, Spells depth m.2 m.2.compact) :
    SpellsMembers depth ((name, value) :: members)
      (stringText name ++ ':' :: (value.compact ++ compactMembers members)) := by
  induction members generalizing name value with
  | nil =>
    have hvalue := hmembers (name, value) List.mem_cons_self
    simpa [compactMembers] using SpellsMembers.last name isSpace_nil hvalue isSpace_nil
  | cons next members ih =>
    obtain ⟨hvalue, hmore⟩ := List.forall_mem_cons.mp hmembers
    have h := SpellsMembers.cons name isSpace_nil hvalue isSpace_nil isSpace_nil
      (ih next.1 next.2 hmore)
    simpa [compactMembers] using h

theorem spellsItems_indented {depth level : Nat} (item : Json) (items : List Json)
    (hitems : ∀ j ∈ item :: items, Spells depth j (j.indented (level + 1))) :
    SpellsItems depth (item :: items)
      (item.indented (level + 1) ++ indentedItems level items) := by
  induction items generalizing item with
  | nil => exact .last (hitems item List.mem_cons_self) (isSpace_breakAt level)
  | cons next items ih =>
    obtain ⟨hitem, hmore⟩ := List.forall_mem_cons.mp hitems
    have h := SpellsItems.cons hitem isSpace_nil (isSpace_breakAt (level + 1)) (ih next hmore)
    simpa [indentedItems] using h

theorem spellsMembers_indented {depth level : Nat} (name : String) (value : Json)
    (members : List (String × Json))
    (hmembers : ∀ m ∈ (name, value) :: members, Spells depth m.2 (m.2.indented (level + 1))) :
    SpellsMembers depth ((name, value) :: members)
      (stringText name ++ ':' :: ' ' ::
        (value.indented (level + 1) ++ indentedMembers level members)) := by
  have hblank : ∀ c ∈ [' '], isSpace c = true := by simp [isSpace]
  induction members generalizing name value with
  | nil =>
    have hvalue := hmembers (name, value) List.mem_cons_self
    have h := SpellsMembers.last name hblank hvalue (isSpace_breakAt level)
    simpa [indentedMembers] using h
  | cons next members ih =>
    obtain ⟨hvalue, hmore⟩ := List.forall_mem_cons.mp hmembers
    have h := SpellsMembers.cons name hblank hvalue isSpace_nil (isSpace_breakAt (level + 1))
      (ih next.1 next.2 hmore)
    simpa [indentedMembers] using h

theorem spells_compact {depth : Nat} {j : Json} (h : Fits depth j) :
    Spells depth j j.compact := by
  induction h with
  | null depth => exact .null depth
  | bool depth b =>
    cases b with
    | true => exact .yes depth
    | false => exact .no depth
  | number depth hn => exact .number depth hn
  | string depth s => exact .string depth s
  | array hitems ih =>
    rename_i depth items
    cases items with
    | nil => exact .emptyArray depth isSpace_nil
    | cons item items =>
      have h := spellsItems_compact item items ih
      simpa [compact] using Spells.array isSpace_nil h
  | object hmembers ih =>
    rename_i depth members
    cases members with
    | nil => exact .emptyObject depth isSpace_nil
    | cons member members =>
      have h := spellsMembers_compact member.1 member.2 members ih
      simpa [compact] using Spells.object isSpace_nil h

theorem spells_indented {depth : Nat} {j : Json} (h : Fits depth j) (level : Nat) :
    Spells depth j (j.indented level) := by
  induction h generalizing level with
  | null depth => exact .null depth
  | bool depth b =>
    cases b with
    | true => exact .yes depth
    | false => exact .no depth
  | number depth hn => exact .number depth hn
  | string depth s => exact .string depth s
  | array hitems ih =>
    rename_i depth items
    cases items with
    | nil => exact .emptyArray depth isSpace_nil
    | cons item items =>
      have h := spellsItems_indented item items fun j hj => ih j hj (level + 1)
      simpa [indented] using Spells.array (isSpace_breakAt (level + 1)) h
  | object hmembers ih =>
    rename_i depth members
    cases members with
    | nil => exact .emptyObject depth isSpace_nil
    | cons member members =>
      have h := spellsMembers_indented member.1 member.2 members fun m hm => ih m hm (level + 1)
      simpa [indented] using Spells.object (isSpace_breakAt (level + 1)) h

/-- A value written on one line is read back. -/
theorem ofChars?_render {j : Json} (h : Fits maxDepth j) : ofChars? j.render.toList = some j := by
  have hread := ofChars?_of_spells (spells_compact h) isSpace_nil isSpace_nil
  rwa [List.nil_append, List.append_nil, ← String.toList_ofList (l := j.compact)] at hread

/-- A value written over several lines is read back. -/
theorem ofChars?_renderIndented {j : Json} (h : Fits maxDepth j) :
    ofChars? j.renderIndented.toList = some j := by
  have hread := ofChars?_of_spells (spells_indented h 0) isSpace_nil isSpace_nil
  rwa [List.nil_append, List.append_nil, ← String.toList_ofList (l := j.indented 0)] at hread

end CompilerRemarks.Json
