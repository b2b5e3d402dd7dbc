/-
  CompilerRemarks.Proofs.Database.Spelling

  How the paths of a database are written does not matter. A record whose
  directory and file are spelled in another way (`RecordRespelled`) is read as
  the very same command (`ofRecord_respelled`): its directory is taken from that
  of the database and its file from that directory, and each is normalised on
  the way. A file that is searched for is normalised too (`find?_respelled`), so
  the same record is found.
-/
import CompilerRemarks.Proofs.Database.Choice
import CompilerRemarks.Proofs.Database.Loading
import CompilerRemarks.Proofs.Path.Spelling

namespace CompilerRemarks

namespace Database

open CompilerRemarks.Path

/-! ## Records -/

/-- A member of two records: the same, or one path in two spellings. -/
def MemberRespelled (name : String) (spelling : Path → Path → Prop) (record record' : Json) :
    Prop :=
  record'.get? name = record.get? name ∨
    ∃ text text', record.get? name = some (.string text) ∧
      record'.get? name = some (.string text') ∧ spelling ⟨text⟩ ⟨text'⟩

/-- Two records, in a database in `base`, that differ in how their paths are
    spelled. -/
structure RecordRespelled (base : Path) (record record' : Json) : Prop where
  arguments : record'.get? "arguments" = record.get? "arguments"
  command : record'.get? "command" = record.get? "command"
  directory : MemberRespelled "directory" (Respelled base) record record'
  /-- The file is taken from the directory of the record. -/
  file : MemberRespelled "file" (fun p q => ∀ directory,
    record.get? "directory" = some (.string directory) →
      Respelled (Path.normalize ⟨directory⟩ base) p q) record record'

theorem MemberRespelled.string?_cases {name : String} {spelling : Path → Path → Prop}
    (hrefl : ∀ p, spelling p p) {record record' : Json}
    (h : MemberRespelled name spelling record record') :
    ((record.get? name).bind Json.string? = none ∧ (record'.get? name).bind Json.string? = none) ∨
      ∃ text text', (record.get? name).bind Json.string? = some text ∧
        (record'.get? name).bind Json.string? = some text' ∧ spelling ⟨text⟩ ⟨text'⟩ := by
  rcases h with heq | ⟨text, text', htext, htext', hspelling⟩
  · rw [heq]
    cases (record.get? name).bind Json.string? with
    | none => exact .inl ⟨rfl, rfl⟩
    | some text => exact .inr ⟨text, text, rfl, rfl, hrefl _⟩
  · rw [htext, htext']
    exact .inr ⟨text, text', rfl, rfl, hspelling⟩

/-- A record is read as the same command, or skipped for the same defect,
    however its paths are spelled. -/
theorem ofRecord_respelled {base : Path} (hbase : base.IsNormal) {record record' : Json}
    (h : RecordRespelled base record record') : ofRecord base record' = ofRecord base record := by
  have hline : lineOf? record' = lineOf? record := by
    rw [lineOf?, lineOf?, h.arguments, h.command]
  obtain ⟨hfile, hfile'⟩ | ⟨file, file', hfile, hfile', hfiles⟩ :=
    h.file.string?_cases fun p directory _ => .refl p
  · rw [ofRecord, ofRecord, hfile, hfile']
    rfl
  · obtain ⟨hdirectory, hdirectory'⟩ | ⟨directory, directory', hdirectory, hdirectory', hspelled⟩ :=
      h.directory.string?_cases .refl
    · rw [ofRecord, ofRecord, hfile, hfile', hdirectory, hdirectory']
      rfl
    · -- the directory has one normal form, and the file has one from there
      have hsame := hspelled.normalize_eq hbase
      have hfrom := hfiles directory (Json.bind_string?_eq_some_iff.mp hdirectory)
      have hjoined := hfrom.normalize_join_eq (isNormal_normalize hbase _)
      simp only [ofRecord, hfile, hfile', hdirectory, hdirectory', hline, orDefect, bind,
        Except.bind, hsame, hjoined]

theorem commands_respelled {path : Path} (hbase : (baseOf path).IsNormal)
    {records records' : List Json}
    (h : List.Forall₂ (RecordRespelled (baseOf path)) records records') :
    (ofJson path records').commands = (ofJson path records).commands := by
  show records'.filterMap _ = records.filterMap _
  induction h with
  | nil => rfl
  | cons hrecord _ ih => simp only [List.filterMap_cons, ofRecord_respelled hbase hrecord, ih]

/-! ## Searching -/

/-- A search looks at the normal form of its target alone. -/
theorem find?_respelled (db : Database) {root target target' : Path} (hroot : root.IsNormal)
    (h : Respelled root target target') : db.find? target' root = db.find? target root := by
  rw [find?_passes, find?_passes, h.normalize_eq hroot]

theorem find?_of_commands {db db' : Database} (h : db'.commands = db.commands)
    (target root : Path) : db'.find? target root = db.find? target root := by
  rw [find?_passes, find?_passes, h]

/-! ## Spelling -/

/-- From a base in normal form, every path but the empty one gets a normal form
    that stays, and that does not depend on whether the path was joined to the
    base before, on pieces in it that lead nowhere, or on a `..` at the root. So
    a database answers alike however its records and the file that is searched
    for are spelled. -/
theorem spelling_does_not_matter {base : Path} (hbase : base.IsNormal) :
    (∀ p : Path, p.text ≠ "" →
      (p.normalize base).isAbsolute = true ∧
      (∃ names : List (List Char), (∀ n ∈ names, IsPlain n) ∧
        p.normalize base = ofComponents (.root :: names.map .name)) ∧
      ∀ b, (p.normalize base).normalize b = p.normalize base ∧
        (base.join p).normalize b = p.normalize base) ∧
    (∀ (p : Path) (before idle after : List (List Char)), p.text ≠ "" → p.isAbsolute = false →
      p.pieces = before ++ after → IsIdle idle →
      (ofPieces (before ++ idle ++ after)).normalize base = p.normalize base) ∧
    (∀ p : Path, (p.normalize base).same ⟨"/"⟩ = true →
      (p.join ⟨".."⟩).normalize base = ⟨"/"⟩ ∧
      ∀ rel : Path, rel.text ≠ "" → rel.isAbsolute = false →
        ((p.join ⟨".."⟩).join rel).normalize base = (p.join rel).normalize base) ∧
    ∀ (files files' : Files) (latch latch' : Latch) (path : Path) (records records' : List Json),
      (baseOf path).IsNormal →
      recordsIn files path = .ok records → recordsIn files' path = .ok records' →
      List.Forall₂ (RecordRespelled (baseOf path)) records records' →
      ∃ db db', (load files path latch).1 = .ok db ∧ (load files' path latch').1 = .ok db' ∧
        db'.commands = db.commands ∧
        ∀ target target', Respelled base target target' →
          db'.find? target' base = db.find? target base := by
  refine ⟨?_, ?_, ?_, ?_⟩
  · intro p hp
    have hne := components_ne_nil_of_text hp
    refine ⟨(isNormal_normalize hbase p).isAbsolute, ?_, ?_⟩
    · obtain ⟨names, hplain, hnames⟩ := isRooted_destination hbase p
      exact ⟨names, hplain, by rw [normalize_eq_ofComponents hbase hne, hnames]⟩
    · intro b
      exact ⟨normalize_normalize hbase hp b, normalize_join hbase hp b⟩
  · intro p before idle after hp hrelative hpieces hidle
    have hinserts : Inserts p (ofPieces (before ++ idle ++ after)) := by
      refine ⟨before, idle, after, hpieces, hidle, rfl, hp, ?_⟩
      rw [hrelative]
      exact nofun
    exact hinserts.normalize_eq hbase
  · intro p hroot
    exact normalize_above_root hbase hroot
  · intro files files' latch latch' path records records' hdirectory hrecords hrecords' hspelled
    have hcommands := commands_respelled hdirectory hspelled
    refine ⟨ofJson path records, ofJson path records', ?_, ?_, hcommands, ?_⟩
    · rw [load_eq, hrecords]
    · rw [load_eq, hrecords']
    · intro target target' htarget
      rw [find?_of_commands hcommands, find?_respelled _ hbase htarget]

/-- A database in `/w` with one record of these paths. -/
def oneRecord (directory file : String) : Files :=
  let text := "[\x7b\"directory\": \"".toList ++ directory.toList ++ "\", \"file\": \"".toList ++
    file.toList ++ "\", \"command\": \"cc\"\x7d]".toList
  { root := .directory [("w".toList, .directory [("compile_commands.json".toList,
      .file (Text.Utf8.encode text) false)])]
    here := [] }

/-- The members of a record that make its command. -/
def membersOf (record : Json) : Bool × Option String × Option String × Option String :=
  ((record.get? "arguments").isNone, (record.get? "command").bind Json.string?,
    (record.get? "directory").bind Json.string?, (record.get? "file").bind Json.string?)

theorem exists_oneRecord {files : Files} {path : Path} {command directory file : String}
    (h : (recordsIn files path).toOption.map (·.map membersOf) =
      some [(true, some command, some directory, some file)]) :
    ∃ record, recordsIn files path = .ok [record] ∧ record.get? "arguments" = none ∧
      record.get? "command" = some (.string command) ∧
      record.get? "directory" = some (.string directory) ∧
      record.get? "file" = some (.string file) := by
  cases hrecords : recordsIn files path with
  | error e =>
    rw [hrecords] at h
    cases h
  | ok records =>
    rw [hrecords] at h
    obtain ⟨record, rfl, hmembers⟩ := List.map_eq_singleton_iff.mp (Option.some.inj h)
    simp only [membersOf, Prod.mk.injEq, Json.bind_string?_eq_some_iff,
      Option.isNone_iff_eq_none] at hmembers
    exact ⟨record, rfl, hmembers⟩

theorem spelling_of_oneRecord :
    let path : Path := ⟨"/w/compile_commands.json"⟩
    (⟨"/w"⟩ : Path).IsNormal ∧
      ∃ db db', (load (oneRecord "." "src/a.c") path .new).1 = .ok db ∧
        (load (oneRecord "/w" "src/./x/../a.c") path .new).1 = .ok db' ∧
        db'.find? ⟨"/../w/src/a.c"⟩ ⟨"/w"⟩ = db.find? ⟨"src/a.c"⟩ ⟨"/w"⟩ := by
  intro path
  have hbase : (⟨"/w"⟩ : Path).IsNormal := ⟨["w".toList], by decide +kernel⟩
  obtain ⟨record, hrecord, harguments, hcommand, hdirectory, hfile⟩ :=
    @exists_oneRecord (oneRecord "." "src/a.c") path "cc" "." "src/a.c" (by decide +kernel)
  obtain ⟨record', hrecord', harguments', hcommand', hdirectory', hfile'⟩ :=
    @exists_oneRecord (oneRecord "/w" "src/./x/../a.c") path "cc" "/w" "src/./x/../a.c"
      (by decide +kernel)
  have hpath : baseOf path = ⟨"/w"⟩ := by decide +kernel
  have hhere : (⟨"."⟩ : Path).normalize ⟨"/w"⟩ = ⟨"/w"⟩ := by decide +kernel
  -- a `.` is put in behind the first piece, and a name with a `..` behind that
  have hfiles : ∀ base, Respelled base ⟨"src/a.c"⟩ ⟨"src/./x/../a.c"⟩ := by
    intro base
    refine .trans _ ⟨"src/./a.c"⟩ _ (.rel _ _ (.inserted ?_)) (.rel _ _ (.inserted ?_))
    · exact ⟨["src".toList], _, ["a.c".toList], by decide +kernel, .current, by decide +kernel,
        by decide, by decide +kernel⟩
    · exact ⟨["src".toList, ".".toList], ["x".toList, "..".toList], ["a.c".toList],
        by decide +kernel, .back (by decide), by decide +kernel, by decide, by decide +kernel⟩
  have hrecords : List.Forall₂ (RecordRespelled (baseOf path)) [record] [record'] := by
    refine .cons ⟨by rw [harguments, harguments'], by rw [hcommand, hcommand'], ?_, ?_⟩ .nil
    · have hnormal : Respells ⟨"/w"⟩ ⟨"."⟩ ((⟨"."⟩ : Path).normalize ⟨"/w"⟩) :=
        .normalised (by decide)
      rw [hhere] at hnormal
      exact .inr ⟨_, _, hdirectory, hdirectory', .rel _ _ (hpath ▸ hnormal)⟩
    · exact .inr ⟨_, _, hfile, hfile', fun _ _ => hfiles _⟩
  have htarget : Respelled ⟨"/w"⟩ ⟨"src/a.c"⟩ ⟨"/../w/src/a.c"⟩ := by
    have hjoined : Respells ⟨"/w"⟩ ⟨"src/a.c"⟩ ((⟨"/w"⟩ : Path).join ⟨"src/a.c"⟩) :=
      .joined (by decide)
    have habove : Respells ⟨"/w"⟩ ((⟨"/"⟩ : Path).join ⟨"w/src/a.c"⟩)
        (((⟨"/"⟩ : Path).join ⟨".."⟩).join ⟨"w/src/a.c"⟩) :=
      .aboveRoot (by decide +kernel) (by decide) (by decide +kernel)
    have hmiddle : (⟨"/"⟩ : Path).join ⟨"w/src/a.c"⟩ = (⟨"/w"⟩ : Path).join ⟨"src/a.c"⟩ := by
      decide +kernel
    have hend : ((⟨"/"⟩ : Path).join ⟨".."⟩).join ⟨"w/src/a.c"⟩ = ⟨"/../w/src/a.c"⟩ := by
      decide +kernel
    rw [hmiddle, hend] at habove
    exact .trans _ _ _ (.rel _ _ hjoined) (.rel _ _ habove)
  obtain ⟨-, -, -, hdatabase⟩ := spelling_does_not_matter hbase
  obtain ⟨db, db', hdb, hdb', -, hfind⟩ := hdatabase _ _ .new .new path _ _ (hpath ▸ hbase)
    hrecord hrecord' hrecords
  exact ⟨hbase, db, db', hdb, hdb', hfind _ _ htarget⟩

end Database

end CompilerRemarks
