/-
  CompilerRemarks.Proofs.Database.Loading

  What a database keeps of a JSON array. A record describes a command
  (`Describes`) or has a first defect (`HasDefect`), both said of the members of
  the record, and reading it gives the one or the other (`ofRecord_cases`).

  Loading then keeps the valid records in order, one command each
  (`describes_commands`), whatever the latch; and it queues, of the defects
  whose kind is open, the first one of each kind (`pending_skipNotices`).
-/
import Mathlib.Data.List.Forall2
import CompilerRemarks.Proofs.Database.Records
import CompilerRemarks.Proofs.Database.Selection

namespace CompilerRemarks

/-! ## Strings and words -/

namespace Json

theorem bind_string?_eq_some_iff {j : Option Json} {s : String} :
    j.bind string? = some s ↔ j = some (.string s) := by
  rw [Option.bind_eq_some_iff]
  constructor
  · rintro ⟨value, rfl, hs⟩
    cases value with
    | string text => exact congrArg (some ∘ Json.string) (Option.some.inj hs)
    | null | bool | number | array | object => cases hs
  · rintro rfl
    exact ⟨_, rfl, rfl⟩

theorem mapM_string?_eq_some_iff {items : List Json} {words : List String} :
    items.mapM string? = some words ↔ items = words.map .string := by
  constructor
  · intro h
    induction items generalizing words with
    | nil =>
      cases h
      rfl
    | cons item items ih =>
      rw [List.mapM_cons] at h
      obtain ⟨w, hw, hrest⟩ := Option.bind_eq_some_iff.mp h
      obtain ⟨rest, hitems, hwords⟩ := Option.bind_eq_some_iff.mp hrest
      cases hwords
      have hitem := bind_string?_eq_some_iff.mp (Option.bind_some item string? ▸ hw)
      rw [Option.some.inj hitem, ih hitems]
      rfl
  · rintro rfl
    exact mapM_string? words

end Json

/-- Words are joined just if none of them holds a NUL. -/
theorem ShellWords.join?_eq_some_iff {words : List String} {line : String} :
    join? words = some line ↔ (∀ w ∈ words, '\x00' ∉ w.toList) ∧
      line = String.ofList (joined (words.map String.toList)) := by
  constructor
  · intro h
    have hnul : ∀ w ∈ words, '\x00' ∉ w.toList := by
      intro w hw hmem
      have hany : (words.any fun w => w.toList.contains '\x00') = true :=
        List.any_eq_true.mpr ⟨w, hw, List.contains_iff_mem.mpr hmem⟩
      rw [join?, if_pos hany] at h
      cases h
    rw [join?_eq_some hnul] at h
    exact ⟨hnul, (Option.some.inj h).symm⟩
  · rintro ⟨hnul, rfl⟩
    exact join?_eq_some hnul

namespace Database

/-! ## Valid records -/

/-- The shell line that a record asks for. -/
inductive Invokes (record : Json) : String → Prop where
  /-- A list of words counts before a line. It must not be empty, and no word may
      hold a NUL. -/
  | words (words : List String) (hne : words ≠ [])
      (hwords : record.get? "arguments" = some (.array (words.map .string)))
      (hnul : ∀ w ∈ words, '\x00' ∉ w.toList) :
      Invokes record (String.ofList (ShellWords.joined (words.map String.toList)))
  | line (line : String)
      (hnone : ∀ item items, record.get? "arguments" ≠ some (.array (item :: items)))
      (hline : record.get? "command" = some (.string line)) : Invokes record line

/-- The command that a record describes, in a database in `base`. -/
def Describes (base : Path) (record : Json) (c : Command) : Prop :=
  ∃ file directory, record.get? "file" = some (.string file) ∧
    record.get? "directory" = some (.string directory) ∧ Invokes record c.line ∧
    c.directory = Path.normalize ⟨directory⟩ base ∧
    c.file = (c.directory.join ⟨file⟩).normalize c.directory

/-- A record that describes a command. -/
def IsValid (record : Json) : Prop :=
  (∃ file, record.get? "file" = some (.string file)) ∧
    (∃ directory, record.get? "directory" = some (.string directory)) ∧
    ∃ line, Invokes record line

/-- The first check that a record fails. -/
inductive HasDefect (record : Json) : Defect → Prop where
  | file (hfile : ∀ file, record.get? "file" ≠ some (.string file)) : HasDefect record .file
  | directory (file : String) (hfile : record.get? "file" = some (.string file))
      (hdirectory : ∀ directory, record.get? "directory" ≠ some (.string directory)) :
      HasDefect record .directory
  | invocation (file directory : String) (hfile : record.get? "file" = some (.string file))
      (hdirectory : record.get? "directory" = some (.string directory))
      (hline : ∀ line, ¬ Invokes record line) : HasDefect record .invocation

variable {base path : Path} {record : Json}

theorem lineOf?_eq_some_iff {line : String} : lineOf? record = some line ↔ Invokes record line := by
  constructor
  · intro h
    unfold lineOf? at h
    split at h
    · rename_i item items hitems
      obtain ⟨words, hwords, hjoin⟩ := Option.bind_eq_some_iff.mp h
      rw [Json.mapM_string?_eq_some_iff] at hwords
      obtain ⟨hnul, rfl⟩ := ShellWords.join?_eq_some_iff.mp hjoin
      refine .words words ?_ (by rw [hitems, hwords]) hnul
      rintro rfl
      cases hwords
    · rename_i hnone
      exact .line line hnone (Json.bind_string?_eq_some_iff.mp h)
  · intro h
    cases h with
    | words words hne hwords hnul =>
      rw [lineOf?_of_arguments hne hwords]
      exact ShellWords.join?_eq_some hnul
    | line line hnone hline =>
      unfold lineOf?
      split
      · rename_i item items hitems
        exact absurd hitems (hnone item items)
      · exact Json.bind_string?_eq_some_iff.mpr hline

/-- A record is checked for its file, then for its directory, then for its
    invocation. -/
theorem ofRecord_cases (base : Path) (record : Json) :
    (∃ c, ofRecord base record = .ok c ∧ Describes base record c) ∨
      ∃ d, ofRecord base record = .error d ∧ HasDefect record d := by
  have hmissing : ∀ {name}, (record.get? name).bind Json.string? = none →
      ∀ text, record.get? name ≠ some (.string text) := by
    intro name hnone text heq
    rw [Json.bind_string?_eq_some_iff.mpr heq] at hnone
    cases hnone
  cases hfile : (record.get? "file").bind Json.string? with
  | none =>
    refine .inr ⟨.file, ?_, .file (hmissing hfile)⟩
    rw [ofRecord, hfile]
    rfl
  | some file =>
    have hfile' := Json.bind_string?_eq_some_iff.mp hfile
    cases hdirectory : (record.get? "directory").bind Json.string? with
    | none =>
      refine .inr ⟨.directory, ?_, .directory file hfile' (hmissing hdirectory)⟩
      rw [ofRecord, hfile, hdirectory]
      rfl
    | some directory =>
      have hdirectory' := Json.bind_string?_eq_some_iff.mp hdirectory
      cases hline : lineOf? record with
      | none =>
        have hnone : ∀ line, ¬ Invokes record line := by
          intro line hinvokes
          rw [lineOf?_eq_some_iff.mpr hinvokes] at hline
          cases hline
        refine .inr ⟨.invocation, ?_, .invocation file directory hfile' hdirectory' hnone⟩
        rw [ofRecord, hfile, hdirectory, hline]
        rfl
      | some line =>
        exact .inl ⟨_, ofRecord_of_lineOf? base hfile' hdirectory' hline, file, directory, hfile',
          hdirectory', lineOf?_eq_some_iff.mp hline, rfl, rfl⟩

theorem Describes.isValid {c : Command} (h : Describes base record c) : IsValid record := by
  obtain ⟨file, directory, hfile, hdirectory, hline, -, -⟩ := h
  exact ⟨⟨file, hfile⟩, ⟨directory, hdirectory⟩, c.line, hline⟩

theorem HasDefect.not_isValid {d : Defect} (h : HasDefect record d) : ¬ IsValid record := by
  rintro ⟨⟨file, hfile⟩, ⟨directory, hdirectory⟩, line, hline⟩
  cases h with
  | file hnone => exact hnone file hfile
  | directory _ _ hnone => exact hnone directory hdirectory
  | invocation _ _ _ _ hnone => exact hnone line hline

/-- A record counts for one defect. -/
theorem HasDefect.unique {d d' : Defect} (h : HasDefect record d) (h' : HasDefect record d') :
    d = d' := by
  cases h with
  | file hnone =>
    cases h' with
    | file => rfl
    | directory file hfile => exact absurd hfile (hnone file)
    | invocation file _ hfile => exact absurd hfile (hnone file)
  | directory file hfile hnone =>
    cases h' with
    | file hnone' => exact absurd hfile (hnone' file)
    | directory => rfl
    | invocation _ directory _ hdirectory => exact absurd hdirectory (hnone directory)
  | invocation file directory hfile hdirectory _ =>
    cases h' with
    | file hnone' => exact absurd hfile (hnone' file)
    | directory _ _ hnone' => exact absurd hdirectory (hnone' directory)
    | invocation => rfl

theorem ofRecord_eq_error_iff {d : Defect} :
    ofRecord base record = .error d ↔ HasDefect record d := by
  rcases ofRecord_cases base record with ⟨c, hok, hc⟩ | ⟨d', herror, hd'⟩
  · rw [hok]
    exact ⟨nofun, fun hd => absurd hc.isValid hd.not_isValid⟩
  · rw [herror]
    refine ⟨fun heq => Except.error.inj heq ▸ hd', fun hd => ?_⟩
    rw [hd.unique hd']

instance : Decidable (IsValid record) :=
  decidable_of_iff ((ofRecord ⟨"/"⟩ record).toOption.isSome = true) <| by
    rcases ofRecord_cases ⟨"/"⟩ record with ⟨c, hok, hc⟩ | ⟨d, herror, hd⟩
    · rw [hok]
      exact ⟨fun _ => hc.isValid, fun _ => rfl⟩
    · rw [herror]
      exact ⟨nofun, fun hvalid => absurd hvalid hd.not_isValid⟩

/-- Valid records are kept in order, each as the command that it describes. -/
theorem describes_commands (path : Path) (records : List Json) :
    List.Forall₂ (Describes (baseOf path)) (records.filter (IsValid ·))
      (ofJson path records).commands := by
  rw [ofJson]
  induction records with
  | nil => exact .nil
  | cons record records ih =>
    rcases ofRecord_cases (baseOf path) record with ⟨c, hok, hc⟩ | ⟨d, herror, hd⟩
    · have hvalid : decide (IsValid record) = true := decide_eq_true hc.isValid
      have hread : (ofRecord (baseOf path) record).toOption = some c := by rw [hok]; rfl
      simp only [List.filter_cons, hvalid, if_true, List.filterMap_cons, hread]
      exact .cons hc ih
    · have hinvalid : decide (IsValid record) = false := decide_eq_false hd.not_isValid
      have hread : (ofRecord (baseOf path) record).toOption = none := by rw [herror]; rfl
      simpa only [List.filter_cons, hinvalid, Bool.false_eq_true, if_false, List.filterMap_cons,
        hread] using ih

/-! ## Numbered defects -/

/-- The record at an index has this first defect. -/
def DefectAt (records : List Json) (d : Defect) (index : Nat) : Prop :=
  ∃ record, records[index]? = some record ∧ HasDefect record d

/-- The defect of a numbered record, with its number. -/
def numberedDefect? (base : Path) (numbered : Json × Nat) : Option (Defect × Nat) :=
  match ofRecord base numbered.1 with
  | .ok _ => none
  | .error d => some (d, numbered.2)

/-- The defects of some records, with their numbers. -/
def numberedDefects (base : Path) (records : List Json) : List (Defect × Nat) :=
  records.zipIdx.filterMap (numberedDefect? base)

/-- The notice for a numbered defect. -/
def defectNotice (path : Path) (x : Defect × Nat) : Notice :=
  skipNotice path x.2 x.1

/-- The first of some numbered defects of each kind. -/
def firstOfEach : List (Defect × Nat) → List (Defect × Nat)
  | [] => []
  | x :: rest => x :: (firstOfEach rest).filter (·.1 != x.1)

theorem numberedDefect?_eq_some_iff {x : Json × Nat} {y : Defect × Nat} :
    numberedDefect? base x = some y ↔ HasDefect x.1 y.1 ∧ x.2 = y.2 := by
  obtain ⟨d, i⟩ := y
  rw [numberedDefect?, ← @ofRecord_eq_error_iff base]
  split
  · rename_i c hok
    rw [hok]
    exact ⟨nofun, fun h => nomatch h.1⟩
  · rename_i d' herror
    rw [herror, Option.some.injEq, Prod.mk.injEq, Except.error.injEq]

theorem mem_numberedDefects {records : List Json} {x : Defect × Nat} :
    x ∈ numberedDefects base records ↔ DefectAt records x.1 x.2 := by
  simp only [numberedDefects, List.mem_filterMap, numberedDefect?_eq_some_iff, DefectAt]
  constructor
  · rintro ⟨⟨record, i⟩, hmem, hd, rfl⟩
    exact ⟨record, List.mem_zipIdx_iff_getElem?.mp hmem, hd⟩
  · rintro ⟨record, hget, hd⟩
    exact ⟨(record, x.2), List.mem_zipIdx_iff_getElem?.mpr hget, hd, rfl⟩

theorem pairwise_numberedDefects (base : Path) (records : List Json) :
    (numberedDefects base records).Pairwise (·.2 < ·.2) := by
  have hzip : records.zipIdx.Pairwise (·.2 < ·.2) := by
    rw [← List.pairwise_map, List.zipIdx_map_snd]
    exact List.pairwise_lt_range'
  refine hzip.filterMap _ ?_
  intro x x' hlt y hy y' hy'
  rw [← (numberedDefect?_eq_some_iff.mp hy).2, ← (numberedDefect?_eq_some_iff.mp hy').2]
  exact hlt

theorem firstOfEach_sublist (xs : List (Defect × Nat)) : (firstOfEach xs).Sublist xs := by
  induction xs with
  | nil => exact .slnil
  | cons x xs ih => exact (List.filter_sublist.trans ih).cons_cons x

/-- Among defects in the order of their numbers, the first one of its kind is
    the one with the least number. -/
theorem mem_firstOfEach {xs : List (Defect × Nat)} (hxs : xs.Pairwise (·.2 < ·.2))
    {x : Defect × Nat} :
    x ∈ firstOfEach xs ↔ x ∈ xs ∧ ∀ y ∈ xs, y.2 < x.2 → y.1 ≠ x.1 := by
  induction xs with
  | nil => simp [firstOfEach]
  | cons first xs ih =>
    obtain ⟨hfirst, hxs⟩ := List.pairwise_cons.mp hxs
    rw [firstOfEach, List.mem_cons, List.mem_filter, ih hxs, bne_iff_ne, List.mem_cons,
      List.forall_mem_cons]
    constructor
    · rintro (rfl | ⟨⟨hmem, hleast⟩, hne⟩)
      · refine ⟨.inl rfl, fun hlt => absurd hlt (Nat.lt_irrefl _), ?_⟩
        intro y hy hlt
        have hbehind := hfirst y hy
        omega
      · exact ⟨.inr hmem, fun _ => hne.symm, hleast⟩
    · rintro ⟨rfl | hmem, hhead, hleast⟩
      · exact .inl rfl
      · exact .inr ⟨⟨hmem, hleast⟩, (hhead (hfirst x hmem)).symm⟩

/-! ## Notices -/

theorem Defect.notice_injective {d d' : Defect} (h : d.notice = d'.notice) : d = d' := by
  cases d <;> cases d' <;> first | rfl | cases h

theorem skipNotices_eq (path : Path) (records : List Json) :
    skipNotices path records =
      (numberedDefects (baseOf path) records).map (defectNotice path) := by
  rw [skipNotices, numberedDefects, List.map_filterMap]
  congr 1
  funext x
  cases hread : ofRecord (baseOf path) x.1 with
  | ok c => simp only [skipped?, numberedDefect?, hread, Option.map_none]
  | error d => simp only [skipped?, numberedDefect?, hread, Option.map_some, defectNotice]

theorem oncePerKind_defectNotice (path : Path) (xs : List (Defect × Nat)) :
    Notice.oncePerKind (xs.map (defectNotice path)) = (firstOfEach xs).map (defectNotice path) := by
  induction xs with
  | nil => rfl
  | cons x xs ih =>
    have hkind : ∀ y : Defect × Nat,
        ((defectNotice path y).kind != (defectNotice path x).kind) = (y.1 != x.1) := by
      intro y
      rw [Bool.eq_iff_iff, bne_iff_ne, bne_iff_ne]
      exact not_congr ⟨Defect.notice_injective, congrArg Defect.notice⟩
    rw [List.map_cons, Notice.oncePerKind, ih, firstOfEach, List.map_cons, List.filter_map]
    congr 2
    exact List.filter_congr fun y _ => hkind y

/-- A latch queues, of the defects whose kind is open, the first of each kind. -/
theorem pending_skipNotices (latch : Latch) (path : Path) (records : List Json) :
    (latch.raiseAll (skipNotices path records)).pending =
      latch.pending ++ ((firstOfEach (numberedDefects (baseOf path) records)).filter
        (latch.isOpen ·.1.notice)).map (defectNotice path) := by
  rw [Latch.pending_raiseAll, skipNotices_eq, oncePerKind_defectNotice, List.filter_map]
  rfl

/-! ## Loading -/

/-- An array with records of all kinds: what is no object, one that lacks both
    paths, words with a NUL beside a good line, a file alone, one more without a
    file, and one that is valid because its list of words is empty. -/
def mixedArray : List Char :=
  "[7, \x7b\"command\": \"cc\"\x7d, ".toList ++
    "\x7b\"file\": \"a.c\", \"directory\": \"w\", ".toList ++
    "\"arguments\": [\"cc\", \"\\u0000\"], \"command\": \"cc\"\x7d, ".toList ++
    "\x7b\"file\": \"a.c\"\x7d, \x7b\"directory\": \"w\"\x7d, ".toList ++
    "\x7b\"file\": \"../a.c\", \"directory\": \"b\", ".toList ++
    "\"arguments\": [], \"command\": \"cc -c\"\x7d]".toList

/-- A file tree with this array as a database in `/w`. -/
def mixedFiles : Files :=
  { root := .directory [("w".toList, .directory [("compile_commands.json".toList,
      .file (Text.Utf8.encode mixedArray) false)])]
    here := [] }

end Database

end CompilerRemarks
