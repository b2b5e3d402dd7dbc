/-
  CompilerRemarks.Proofs.Database.Records

  What the compile command of a record keeps of it. A record that lists its
  words gets a shell line that splits into them again, with or without flags
  behind it (`Command.split?_withFlags`), so the words come through the
  database and the line that is run as they were.
-/
import CompilerRemarks.Database.Basic
import CompilerRemarks.Proofs.ShellWords
import CompilerRemarks.Settings.Basic

namespace CompilerRemarks

/-! ## Flags -/

/-- Flags go behind the line, each after a blank. -/
theorem Command.toList_withFlags (c : Command) (flags : List String) :
    (c.withFlags flags).toList =
      Text.trimEnd c.line.toList ++ flags.flatMap fun flag => ' ' :: flag.toList := by
  have hfold : ∀ line : String,
      (flags.foldl (fun line flag => line ++ " " ++ flag) line).toList =
        line.toList ++ flags.flatMap fun flag => ' ' :: flag.toList := by
    induction flags with
    | nil => simp
    | cons flag flags ih =>
      intro line
      rw [List.foldl_cons, ih, List.flatMap_cons, String.toList_append, String.toList_append]
      simp
  rw [withFlags, hfold, Text.trimmedEnd, String.toList_ofList]

theorem flatMap_blank_cons (flag : String) (flags : List String) :
    ((flag :: flags).flatMap fun flag => ' ' :: flag.toList) =
      ' ' :: (" ".intercalate (flag :: flags)).toList := by
  rw [String.toList_intercalate]
  induction flags generalizing flag with
  | nil => simp
  | cons next flags ih =>
    rw [List.flatMap_cons, ih next, List.map_cons, List.map_cons, List.map_cons,
      List.intercalate_cons_cons]
    simp

namespace Command

open ShellWords

variable {c : Command} {words : List String}

/-- Behind a line of quoted words, flags are split as they would be alone. -/
theorem split?_withFlags (hline : c.line.toList = joined (words.map String.toList))
    (hne : words ≠ []) {flags extra : List String}
    (hflags : split? (" ".intercalate flags) = some extra) :
    split? (c.withFlags flags) = some (words ++ extra) := by
  have hne' : words.map String.toList ≠ [] := mt List.map_eq_nil_iff.mp hne
  have hback : (words.map String.toList).map String.ofList = words := by
    rw [List.map_map]
    simp
  -- trimming takes nothing off, because the last word ends in no blank
  have hwhole : (c.withFlags flags).toList =
      joined (words.map String.toList) ++ flags.flatMap fun flag => ' ' :: flag.toList := by
    rw [toList_withFlags, hline, Text.trimEnd_of_getLast (getLast_joined _)]
  obtain ⟨more, hmore, rfl⟩ := Option.map_eq_some_iff.mp hflags
  rw [split?, hwhole]
  cases flags with
  | nil =>
    cases hmore
    rw [List.flatMap_nil, splitFrom_joined hne' splitFrom_word_nil, Option.map_some,
      Option.map_some, List.map_append, hback]
  | cons flag flags =>
    rw [flatMap_blank_cons, splitFrom_joined hne' fun acc => splitFrom_word_blank acc _, hmore,
      Option.map_some, Option.map_some, List.map_append, hback]

end Command

/-! ## Records that list their words -/

theorem Json.mapM_string? (words : List String) :
    (words.map Json.string).mapM Json.string? = some words := by
  induction words with
  | nil => rfl
  | cons w words ih => simp [ih, Json.string?]

namespace Database

variable {record : Json} {words : List String}

theorem lineOf?_of_arguments (hne : words ≠ [])
    (hwords : record.get? "arguments" = some (.array (words.map .string))) :
    lineOf? record = ShellWords.join? words := by
  obtain ⟨w, rest, rfl⟩ := List.exists_cons_of_ne_nil hne
  rw [lineOf?, hwords, List.map_cons]
  show ((Json.string w :: rest.map Json.string).mapM Json.string?).bind ShellWords.join? = _
  rw [← List.map_cons, Json.mapM_string?, Option.bind_some]

theorem ofRecord_of_lineOf? (base : Path) {file directory line : String}
    (hfile : record.get? "file" = some (.string file))
    (hdirectory : record.get? "directory" = some (.string directory))
    (hline : lineOf? record = some line) :
    ofRecord base record = .ok ⟨Path.normalize ⟨directory⟩ base,
      ((Path.normalize ⟨directory⟩ base).join ⟨file⟩).normalize (Path.normalize ⟨directory⟩ base),
      line⟩ := by
  simp only [ofRecord, hfile, hdirectory, hline]
  rfl

/-- The words of a record come through as they are: its command has them as
    its arguments, and the line that is run splits into them and the flags. -/
theorem ofRecord_keeps_words (base : Path) {file directory : String}
    (hfile : record.get? "file" = some (.string file))
    (hdirectory : record.get? "directory" = some (.string directory))
    (hwords : record.get? "arguments" = some (.array (words.map .string)))
    (hne : words ≠ []) (hnul : ∀ w ∈ words, '\x00' ∉ w.toList) :
    ∃ c, ofRecord base record = .ok c ∧ c.arguments = words ∧ c.program? = words.head? ∧
      ∀ (settings : Settings) (extra : List String),
        ShellWords.split? (" ".intercalate settings.recordFlags) = some extra →
        ShellWords.split? (c.withFlags settings.recordFlags) = some (words ++ extra) := by
  have hline : lineOf? record =
      some (String.ofList (ShellWords.joined (words.map String.toList))) := by
    rw [lineOf?_of_arguments hne hwords, ShellWords.join?_eq_some hnul]
  refine ⟨_, ofRecord_of_lineOf? base hfile hdirectory hline, ?_⟩
  generalize hc : Command.mk _ _ _ = c
  have htext : c.line = String.ofList (ShellWords.joined (words.map String.toList)) := by
    rw [← hc]
  have harguments : c.arguments = words := by
    rw [Command.arguments, htext, ShellWords.split?_joined hne, Option.getD_some]
  have hchars : c.line.toList = ShellWords.joined (words.map String.toList) := by
    rw [htext, String.toList_ofList]
  exact ⟨harguments, by rw [Command.program?, harguments],
    fun settings extra hflags => Command.split?_withFlags hchars hne hflags⟩

/-- Words with quotes, blanks, line breaks, backslashes and comment signs in
    them, and one that is empty. -/
def oddWords : List String :=
  ["cc", "-DNAME=\"it's\"", "", "#^! $x`\\", "a\nb\t", "é^'"]

def oddRecord : Json :=
  .object [("file", .string "a.c"), ("directory", .string "/w"),
    ("arguments", .array (oddWords.map .string))]

theorem ofRecord_keeps_oddWords :
    (∀ w ∈ oddWords, '\x00' ∉ w.toList) ∧ ∃ c, ofRecord ⟨"/w"⟩ oddRecord = .ok c ∧
      c.arguments = oddWords ∧ c.program? = some "cc" ∧
      ShellWords.split? (c.withFlags ["-o", "'a b'  # no flag"]) =
        some (oddWords ++ ["-o", "a b"]) := by
  have hnul : ∀ w ∈ oddWords, '\x00' ∉ w.toList := by decide +kernel
  have hfile : oddRecord.get? "file" = some (.string "a.c") := rfl
  have hdirectory : oddRecord.get? "directory" = some (.string "/w") := rfl
  have hwords : oddRecord.get? "arguments" = some (.array (oddWords.map .string)) := rfl
  obtain ⟨c, hc, harguments, hprogram, hflags⟩ :=
    ofRecord_keeps_words ⟨"/w"⟩ hfile hdirectory hwords (by decide) hnul
  refine ⟨hnul, c, hc, harguments, hprogram, ?_⟩
  exact hflags { recordFlags := ["-o", "'a b'  # no flag"] } ["-o", "a b"] (by decide +kernel)

end Database

end CompilerRemarks
