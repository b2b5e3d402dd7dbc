/-
  CompilerRemarks.Proofs.Anchor.Arguments

  The arguments for a dump, told by the places of the words in the compile
  command. The command is read from left to right and `-o` takes the word
  behind it along, so whether a word is such a value hangs on the word before
  it alone (`isOutputValue`). The words that are passed on are those at the
  other places that ask for no output and do not name the source
  (`keptWords_eq`).

  Whether a word names the source is told by the path that it is taken for, and
  an option is taken for a path like any other word. So an option goes with the
  source if its value ends in a path to a file of the same name
  (`namesSource_of_slash`), and only then are options lost that ask for no
  output (`arguments_by_place`).
-/
import CompilerRemarks.Anchor.Dump
import CompilerRemarks.Proofs.Path.Components
import CompilerRemarks.Proofs.Remark.SameFile

namespace CompilerRemarks.Anchor.Dump

/-! ## Places -/

/-- Whether the word at a place is the value of a lone `-o`: the word before it
    is one, and no value itself. -/
def isOutputValue (words : List String) : Nat → Bool
  | 0 => false
  | i + 1 => words[i]? == some "-o" && !isOutputValue words i

/-- Whether the word at a place is kept. -/
def isKeptAt (drops : String → Bool) (words : List String) (i : Nat) : Bool :=
  !isOutputValue words i && (words[i]?).any fun word => !isOutputFlag word && !drops word

/-- The places of the words that are kept. -/
def keptPlaces (drops : String → Bool) (words : List String) : List Nat :=
  (List.range words.length).filter (isKeptAt drops words)

variable {drops : String → Bool} {words : List String}

theorem isOutputValue_cons {word : String} (h : word ≠ "-o") (rest : List String) (i : Nat) :
    isOutputValue (word :: rest) (i + 1) = isOutputValue rest i := by
  induction i with
  | zero => simp [isOutputValue, h]
  | succ i ih => rw [isOutputValue, ih, List.getElem?_cons_succ, isOutputValue]

/-- The word behind a lone `-o` is its value, even if it is `-o` again. -/
theorem isOutputValue_output (value : String) (rest : List String) (i : Nat) :
    isOutputValue ("-o" :: value :: rest) (i + 2) = isOutputValue rest i := by
  induction i with
  | zero => simp [isOutputValue]
  | succ i ih =>
    rw [isOutputValue, ih, List.getElem?_cons_succ, List.getElem?_cons_succ, isOutputValue]

theorem isOutputFlag_output : isOutputFlag "-o" = true := by
  decide

/-! ## Kept words -/

theorem isKeptAt_first (word : String) (rest : List String) :
    isKeptAt drops (word :: rest) 0 = !(isOutputFlag word || drops word) := by
  simp [isKeptAt, isOutputValue]

theorem keptPlaces_single (word : String) :
    keptPlaces drops [word] = if isOutputFlag word || drops word then [] else [0] := by
  have hrange : List.range [word].length = [0] := rfl
  rw [keptPlaces, hrange, List.filter_cons, isKeptAt_first]
  cases isOutputFlag word || drops word <;> rfl

theorem keptPlaces_cons {word : String} (h : word ≠ "-o") (rest : List String) :
    keptPlaces drops (word :: rest) =
      (if isOutputFlag word || drops word then [] else [0]) ++
        (keptPlaces drops rest).map (· + 1) := by
  have hlater : (isKeptAt drops (word :: rest) ∘ Nat.succ) = isKeptAt drops rest := by
    funext i
    rw [Function.comp_apply, isKeptAt, isOutputValue_cons h, List.getElem?_cons_succ, isKeptAt]
  rw [keptPlaces, List.length_cons, List.range_succ_eq_map, List.filter_cons, isKeptAt_first,
    List.filter_map, hlater, keptPlaces]
  cases isOutputFlag word || drops word <;> rfl

theorem keptPlaces_output (value : String) (rest : List String) :
    keptPlaces drops ("-o" :: value :: rest) = (keptPlaces drops rest).map (· + 2) := by
  have hoption : isKeptAt drops ("-o" :: value :: rest) 0 = false := by
    rw [isKeptAt_first, isOutputFlag_output, Bool.true_or]
    rfl
  have hvalue : isKeptAt drops ("-o" :: value :: rest) 1 = false := by
    simp [isKeptAt, isOutputValue]
  have hlater : (isKeptAt drops ("-o" :: value :: rest) ∘ (Nat.succ ∘ Nat.succ)) =
      isKeptAt drops rest := by
    funext i
    rw [Function.comp_apply, Function.comp_apply, isKeptAt, isOutputValue_output,
      List.getElem?_cons_succ, List.getElem?_cons_succ, isKeptAt]
  have hrange : List.range (rest.length + 1 + 1) =
      0 :: 1 :: (List.range rest.length).map (Nat.succ ∘ Nat.succ) := by
    rw [List.range_succ_eq_map, List.range_succ_eq_map, List.map_cons, List.map_map]
  rw [keptPlaces, List.length_cons, List.length_cons, hrange, List.filter_cons, hoption,
    List.filter_cons, hvalue, List.filter_map, hlater, keptPlaces]
  rfl

/-- Places move on by the number of words that are put in front. -/
theorem filterMap_getElem?_append (front rest : List String) (places : List Nat) :
    (places.map (· + front.length)).filterMap ((front ++ rest)[·]?) =
      places.filterMap (rest[·]?) := by
  rw [List.filterMap_map]
  apply List.filterMap_congr
  intro i _
  have hplace : i + front.length - front.length = i := by omega
  rw [Function.comp_apply, List.getElem?_append_right (by omega), hplace]

/-- The words that are kept are those at the places that are kept, in order. -/
theorem keptWords_eq (drops : String → Bool) (words : List String) :
    keptWords drops words = (keptPlaces drops words).filterMap (words[·]?) := by
  -- one word in front, which is no `-o`: it is kept or not, and the others move on by one
  have hcons : ∀ {word : String}, word ≠ "-o" → ∀ rest : List String,
      (keptPlaces drops (word :: rest)).filterMap ((word :: rest)[·]?) =
        (if isOutputFlag word || drops word then [] else [word]) ++
          (keptPlaces drops rest).filterMap (rest[·]?) := by
    intro word hword rest
    rw [keptPlaces_cons hword, List.filterMap_append,
      ← filterMap_getElem?_append [word] rest (keptPlaces drops rest)]
    cases isOutputFlag word || drops word <;> rfl
  induction words using keptWords.induct drops with
  | case1 => rfl
  | case2 word hlost =>
    rw [keptWords, if_pos hlost, keptPlaces_single, if_pos hlost]
    rfl
  | case3 word hkept =>
    rw [keptWords, if_neg hkept, keptPlaces_single, if_neg hkept]
    rfl
  | case4 word value rest houtput ih =>
    have hword : word = "-o" := beq_iff_eq.mp houtput
    subst hword
    rw [keptWords, if_pos houtput, ih, keptPlaces_output,
      ← filterMap_getElem?_append ["-o", value] rest (keptPlaces drops rest)]
    rfl
  | case5 word next rest hplain hlost ih =>
    have hword : word ≠ "-o" := fun heq => hplain (beq_iff_eq.mpr heq)
    rw [keptWords, if_neg hplain, if_pos hlost, ih, hcons hword, if_pos hlost, List.nil_append]
  | case6 word next rest hplain hkept ih =>
    have hword : word ≠ "-o" := fun heq => hplain (beq_iff_eq.mpr heq)
    rw [keptWords, if_neg hplain, if_neg hkept, ih, hcons hword, if_neg hkept]
    rfl

theorem mem_keptPlaces_iff {i : Nat} {word : String} (hword : words[i]? = some word) :
    i ∈ keptPlaces drops words ↔
      isOutputFlag word = false ∧ isOutputValue words i = false ∧ drops word = false := by
  obtain ⟨hlt, -⟩ := List.getElem?_eq_some_iff.mp hword
  rw [keptPlaces, List.mem_filter, List.mem_range, isKeptAt, hword, Option.any_some,
    Bool.and_eq_true, Bool.and_eq_true, Bool.not_eq_true', Bool.not_eq_true', Bool.not_eq_true']
  constructor
  · rintro ⟨-, hvalue, hflag, hdrop⟩
    exact ⟨hflag, hvalue, hdrop⟩
  · rintro ⟨hflag, hvalue, hdrop⟩
    exact ⟨hlt, hvalue, hflag, hdrop⟩

/-! ## Words that name the source -/

/-- Whether a word, taken for a path, has the name of the source of a command,
    or is the path of the source or of the file that is dumped. -/
def NamesSource (c : Command) (file : Path) (word : String) : Prop :=
  (∃ name, (Path.mk word).fileName? = some name ∧ c.file.fileName? = some name) ∨
    (Path.mk word).components = c.file.components ∨ (Path.mk word).components = file.components

theorem namesSource_iff (c : Command) (file : Path) (word : String) :
    (Remark.sameFile ⟨word⟩ c.file || (Path.mk word).same file) = true ↔
      NamesSource c file word := by
  rw [Bool.or_eq_true, Remark.sameFile_iff, Path.same_iff, NamesSource, or_comm (a := _ = _),
    or_assoc]

/-- An option is lost with the source if its value ends in a path to a file of
    the same name. -/
theorem namesSource_of_slash {c : Command} {name : List Char} (h : c.file.fileName? = some name)
    (file : Path) (before : List Char) :
    NamesSource c file (String.ofList (before ++ '/' :: name)) := by
  have hplain : Path.IsPlain name := Path.isPlain_of_fileName? h
  exact .inl ⟨name, Path.fileName?_append_slash hplain before, h⟩

/-! ## The arguments -/

/-- The arguments for a dump are its flags, then words of the command behind the
    program, each from its place and in their order, and then the file. A word
    is passed on just if it is neither a flag for the output nor the value of a
    lone `-o`, and does not name the source. So of the options that ask for no
    output those are passed on that do not name the source; no option is that
    ends in a slash and the name of the source. -/
theorem arguments_by_place (c : Command) (file : Path) :
    let words := c.arguments.drop 1
    ∃ places : List Nat, places.Pairwise (· < ·) ∧ (∀ i ∈ places, i < words.length) ∧
      arguments (some c) file = dumpFlags ++ places.filterMap (words[·]?) ++ [file.text] ∧
      (∀ i word, words[i]? = some word → (i ∈ places ↔
        isOutputFlag word = false ∧ isOutputValue words i = false ∧ ¬ NamesSource c file word)) ∧
      ∀ i before name, words[i]? = some (String.ofList (before ++ '/' :: name)) →
        c.file.fileName? = some name → i ∉ places := by
  intro words
  let drops := fun word => Remark.sameFile ⟨word⟩ c.file || (Path.mk word).same file
  have hmem : ∀ i word, words[i]? = some word → (i ∈ keptPlaces drops words ↔
      isOutputFlag word = false ∧ isOutputValue words i = false ∧
        ¬ NamesSource c file word) := by
    intro i word hword
    rw [mem_keptPlaces_iff hword, ← namesSource_iff, Bool.not_eq_true]
  refine ⟨keptPlaces drops words, ?_, ?_, ?_, hmem, ?_⟩
  · exact List.pairwise_lt_range.filter _
  · intro i hi
    exact List.mem_range.mp (List.mem_of_mem_filter hi)
  · rw [← keptWords_eq]
    rfl
  · intro i before name hword hname hi
    obtain ⟨-, -, hnot⟩ := (hmem i _ hword).mp hi
    exact hnot (namesSource_of_slash hname file before)

/-- A command with an option whose value ends in the name of the source. -/
def configuredCommand : Command :=
  ⟨⟨"/w/build"⟩, ⟨"/w/src/a.c"⟩, "clang -O2 -DCONFIG=/etc/a.c -c ../src/a.c -o a.o -DX=1"⟩

/-- Not every option that asks for no output is passed on: one with a value that
    ends in the name of the source is taken for the source. -/
theorem arguments_lose_option :
    ¬ ∀ (c : Command) (file : Path) (i : Nat) (word : String),
      (c.arguments.drop 1)[i]? = some word → startsWith "-" word = true →
      isOutputFlag word = false → isOutputValue (c.arguments.drop 1) i = false →
      word ∈ arguments (some c) file := by
  intro h
  have hpassed := h configuredCommand ⟨"/w/src/a.c"⟩ 1 "-DCONFIG=/etc/a.c" (by decide +kernel)
    (by decide +kernel) (by decide +kernel) (by decide +kernel)
  exact absurd hpassed (by decide +kernel)

end CompilerRemarks.Anchor.Dump
