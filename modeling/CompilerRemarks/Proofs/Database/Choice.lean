/-
  CompilerRemarks.Proofs.Database.Choice

  Which record of a database answers for a file. A database that a search
  loads has nothing but paths in normal form (`isNormal_of_load`). On such
  paths comparing relative paths is the same as moving a record: a record is
  found by its place below its own directory just if its file is that place
  put behind that directory (`buildsRelative_iff`). The search is then two
  searches for a file, one behind the other (`find?_eq`).

  Main statements: which record is chosen, and that its file is the one that
  was asked for (`chosen_record`); a checkout that was moved as a whole is
  answered like the one that it was (`find?_of_moved`).
-/
import CompilerRemarks.Proofs.Database.Candidates

namespace CompilerRemarks

namespace Database

open CompilerRemarks.Path

/-! ## Records -/

/-- Every path in the database is in normal form. -/
def IsNormal (db : Database) : Prop :=
  ∀ c ∈ db.commands, c.directory.IsNormal ∧ c.file.IsNormal

theorem exists_of_ofRecord {base : Path} {record : Json} {c : Command}
    (h : ofRecord base record = .ok c) :
    ∃ file directory : Path, c.directory = directory.normalize base ∧
      c.file = (c.directory.join file).normalize c.directory := by
  unfold ofRecord at h
  cases hfile : orDefect .file ((record.get? "file").bind Json.string?) with
  | error d =>
    rw [hfile] at h
    cases h
  | ok file =>
    cases hdirectory : orDefect .directory ((record.get? "directory").bind Json.string?) with
    | error d =>
      rw [hfile, hdirectory] at h
      cases h
    | ok directory =>
      cases hline : orDefect .invocation (lineOf? record) with
      | error d =>
        rw [hfile, hdirectory, hline] at h
        cases h
      | ok line =>
        rw [hfile, hdirectory, hline] at h
        cases h
        exact ⟨⟨file⟩, ⟨directory⟩, rfl, rfl⟩

/-- A record that is read from a directory in normal form has paths in normal
    form, and its file is written that way. -/
theorem isNormal_of_ofRecord {base : Path} (hbase : base.IsNormal) {record : Json} {c : Command}
    (h : ofRecord base record = .ok c) :
    c.directory.IsNormal ∧ c.file.IsNormal ∧ c.file.IsSpelled := by
  obtain ⟨file, directory, hdirectory, hfile⟩ := exists_of_ofRecord h
  have hnormal : c.directory.IsNormal := by
    rw [hdirectory]
    exact isNormal_normalize hbase directory
  -- what is normalised is not empty, so it is written anew from its components
  have hjoined : (c.directory.join file).components ≠ [] := by
    cases habsolute : file.isAbsolute with
    | true =>
      rw [join, if_pos habsolute]
      exact components_ne_nil habsolute
    | false =>
      rw [components_join hnormal.components_ne_nil habsolute]
      exact List.append_ne_nil_of_left_ne_nil hnormal.components_ne_nil _
  rw [hfile]
  exact ⟨hnormal, isNormal_normalize hnormal _, isSpelled_normalize hnormal (.inl hjoined)⟩

theorem exists_record_of_mem {path : Path} {records : List Json} {c : Command}
    (h : c ∈ (ofJson path records).commands) :
    ∃ record ∈ records, ofRecord (baseOf path) record = .ok c := by
  obtain ⟨record, hrecord, hsome⟩ := List.mem_filterMap.mp h
  refine ⟨record, hrecord, ?_⟩
  cases hread : ofRecord (baseOf path) record with
  | error d =>
    rw [hread] at hsome
    cases hsome
  | ok found =>
    rw [hread] at hsome
    cases hsome
    rfl

/-- The records of a candidate are taken from the directory that it lies in. -/
theorem isNormal_baseOf {d : Path} (hd : d.IsNormal) :
    (baseOf (d.join Resolver.databaseName)).IsNormal := by
  obtain ⟨q, hparent, hcomponents⟩ := Resolver.parent?_candidate hd.isAbsolute
  rw [baseOf, hparent, Option.getD_some]
  exact hd.congr hcomponents

/-! ## Searching -/

variable {db : Database} {root target rel : Path}

theorem findRecord_congr {commands : List Command} {p q : Command → Bool}
    (h : ∀ c ∈ commands, p c = q c) : commands.find? p = commands.find? q := by
  rw [← List.head?_filter, ← List.head?_filter, List.filter_congr h]

/-- A search makes two passes: by file, and then by the path from the root. -/
theorem find?_passes (db : Database) (target root : Path) :
    db.find? target root =
      (db.commands.find? (·.file.same (target.normalize root))).or
        ((relative? (target.normalize root) (root.normalize root)).bind fun p =>
          (db.commands.find? (buildsRelative p)).map fun c =>
            ⟨root.normalize root, target.normalize root, c.line⟩) := by
  simp only [find?, Option.bind_eq_bind]
  split
  · rename_i c hfirst
    rw [hfirst, Option.some_or]
  · rename_i hfirst
    simp only [hfirst, Option.none_or, Option.map_eq_bind]
    rfl

/-- A record lies below its own directory as a descent says just if its file is
    that descent behind its directory. -/
theorem buildsRelative_iff {c : Command} (hc : c.directory.IsNormal) (hrel : rel.Descends)
    {p : Path} (hp : p.same rel = true) :
    buildsRelative p c = true ↔ c.file.same (c.directory.join rel) = true := by
  rw [same_iff c.file, components_join_of_descends hc.components_ne_nil hrel,
    ← relative?_same_iff hc hrel]
  unfold buildsRelative
  cases relative? c.file c.directory with
  | none => exact ⟨nofun, nofun⟩
  | some q =>
    show q.same p = true ↔ _
    rw [same_congr_right hp q]
    constructor
    · intro h
      exact ⟨q, rfl, h⟩
    · rintro ⟨q', hq', h⟩
      cases hq'
      exact h

/-- A file below the root is searched for twice: where it lies, and then where
    it would lie in the directory of each record. -/
theorem find?_eq (hdb : ∀ c ∈ db.commands, c.directory.IsNormal) (hroot : root.IsNormal)
    (hrel : rel.Descends)
    (htarget : (target.normalize root).components = root.components ++ rel.components) :
    db.find? target root =
      (db.commands.find? (·.file.same (target.normalize root))).or
        ((db.commands.find? fun c => c.file.same (c.directory.join rel)).map fun c =>
          ⟨root.normalize root, target.normalize root, c.line⟩) := by
  have hroot' := components_normalize_of_isNormal hroot root
  -- the path from the root to the target is the descent itself
  obtain ⟨p, hp, hsame⟩ := (relative?_same_iff (hroot.congr hroot') hrel).mpr
    (htarget.trans (by rw [hroot']))
  have hmoved : db.commands.find? (buildsRelative p) =
      db.commands.find? fun c => c.file.same (c.directory.join rel) := by
    apply findRecord_congr
    intro c hc
    rw [Bool.eq_iff_iff]
    exact buildsRelative_iff (hdb c hc) hrel hsame
  rw [find?_passes, hp, Option.bind_some, hmoved]

/-- What a search for `target`, which lies at `rel` below `root`, answers. -/
structure IsChoice (db : Database) (root target rel : Path) (answer : Option Command) : Prop where
  /-- The first record of the target is taken as it is. -/
  of_file : ∀ (before : List Command) (c : Command) (after : List Command),
    db.commands = before ++ c :: after → c.file.same target = true →
    (∀ b ∈ before, b.file.same target = false) → answer = some c
  /-- Where there is none, the first record of what lies at `rel` below its own
      directory is moved to the root. -/
  of_moved : (∀ c ∈ db.commands, c.file.same target = false) →
    ∀ (before : List Command) (c : Command) (after : List Command),
      db.commands = before ++ c :: after → c.file.same (c.directory.join rel) = true →
      (∀ b ∈ before, b.file.same (b.directory.join rel) = false) →
      ∃ moved, answer = some moved ∧ moved.directory.same root = true ∧ moved.file = target ∧
        moved.line = c.line
  eq_none_iff : answer = none ↔
    ∀ c ∈ db.commands, c.file.same target = false ∧ c.file.same (c.directory.join rel) = false

theorem find?_append_cons {commands before after : List Command} {c : Command}
    {p : Command → Bool} (hsplit : commands = before ++ c :: after) (hc : p c = true)
    (hbefore : ∀ b ∈ before, p b = false) : commands.find? p = some c := by
  rw [List.find?_eq_some_iff_append]
  exact ⟨hc, before, after, hsplit, fun b hb => by rw [hbefore b hb]; rfl⟩

theorem find?_eq_none_iff {commands : List Command} {p : Command → Bool} :
    commands.find? p = none ↔ ∀ c ∈ commands, p c = false := by
  rw [List.find?_eq_none]
  simp only [Bool.not_eq_true]

/-- A search below the root chooses by file first, and then by place. -/
theorem isChoice_find? (hdb : db.IsNormal) (hroot : root.IsNormal) (hrel : rel.Descends)
    (htarget : (target.normalize root).components = root.components ++ rel.components) :
    IsChoice db root (target.normalize root) rel (db.find? target root) := by
  have hfind := find?_eq (fun c hc => (hdb c hc).1) hroot hrel htarget
  refine ⟨?_, ?_, ?_⟩
  · intro before c after hsplit hc hbefore
    rw [hfind, find?_append_cons hsplit hc hbefore]
    rfl
  · intro hnone before c after hsplit hc hbefore
    refine ⟨⟨root.normalize root, target.normalize root, c.line⟩, ?_, ?_, rfl, rfl⟩
    · rw [hfind, find?_eq_none_iff.mpr hnone, find?_append_cons hsplit hc hbefore]
      rfl
    · exact (same_iff _ _).mpr (components_normalize_of_isNormal hroot root)
  · rw [hfind, Option.or_eq_none_iff, Option.map_eq_none_iff, find?_eq_none_iff,
      find?_eq_none_iff, forall₂_and]

/-- Whatever is found has the file that was asked for. -/
theorem file_of_find? {c : Command} (h : db.find? target root = some c) :
    c ∈ db.commands ∧ c.file.same (target.normalize root) = true ∨
      c.file = target.normalize root := by
  rw [find?_passes, Option.or_eq_some_iff] at h
  rcases h with hfirst | ⟨-, hsecond⟩
  · have hsame := List.find?_some hfirst
    exact .inl ⟨List.mem_of_find?_eq_some hfirst, hsame⟩
  · obtain ⟨p, -, hp⟩ := Option.bind_eq_some_iff.mp hsecond
    obtain ⟨found, -, rfl⟩ := Option.map_eq_some_iff.mp hp
    exact .inr rfl

/-! ## Moved checkouts -/

/-- Where all records have one directory, a file below the root is searched for
    below the root, and then below that directory. -/
theorem find?_join {old : Path} (hold : old.IsNormal)
    (hdirectory : ∀ c ∈ db.commands, c.directory.same old = true) (hroot : root.IsNormal)
    (hrel : rel.Descends) :
    db.find? (root.join rel) root =
      (db.commands.find? (·.file.same (root.join rel))).or
        ((db.commands.find? (·.file.same (old.join rel))).map fun c =>
          ⟨root.normalize root, (root.join rel).normalize root, c.line⟩) := by
  have hkept := components_normalize_of_isNormal (hroot.join_of_descends hrel) root
  have hjoin := components_join_of_descends hroot.components_ne_nil hrel
  have hnormal : ∀ c ∈ db.commands, c.directory.IsNormal :=
    fun c hc => hold.congr ((same_iff _ _).mp (hdirectory c hc))
  have hhere : db.commands.find? (·.file.same ((root.join rel).normalize root)) =
      db.commands.find? (·.file.same (root.join rel)) := by
    apply findRecord_congr
    intro c hc
    exact same_congr_right ((same_iff _ _).mpr hkept) c.file
  have hthere : (db.commands.find? fun c => c.file.same (c.directory.join rel)) =
      db.commands.find? (·.file.same (old.join rel)) := by
    apply findRecord_congr
    intro c hc
    have hmoved : (c.directory.join rel).components = (old.join rel).components := by
      rw [components_join_of_descends (hnormal c hc).components_ne_nil hrel,
        components_join_of_descends hold.components_ne_nil hrel,
        (same_iff _ _).mp (hdirectory c hc)]
    exact same_congr_right ((same_iff _ _).mpr hmoved) c.file
  rw [find?_eq hnormal hroot hrel (hkept.trans hjoin), hhere, hthere]

/-- A checkout that was moved as a whole is answered like the one that it was:
    by the same record, the first one of the file, moved to where it is now. -/
theorem find?_of_moved {old new : Path} (hold : old.IsNormal) (hnew : new.IsNormal)
    (hrel : rel.Descends) (hdirectory : ∀ c ∈ db.commands, c.directory.same old = true)
    (hfile : ∀ c ∈ db.commands, c.file.startsWith new = false) :
    ((∃ moved, db.find? (new.join rel) new = some moved) ↔
      ∃ c, db.find? (old.join rel) old = some c) ∧
    ∀ c moved, db.find? (old.join rel) old = some c → db.find? (new.join rel) new = some moved →
      moved.line = c.line ∧ moved.directory.same new = true ∧
      moved.file.same (new.join rel) = true ∧
      ∃ before after, db.commands = before ++ c :: after ∧ c.file.same (old.join rel) = true ∧
        ∀ b ∈ before, b.file.same (old.join rel) = false := by
  -- both answers come from the one record that is the first of the file
  have hnowhere : db.commands.find? (·.file.same (new.join rel)) = none := by
    rw [find?_eq_none_iff]
    intro c hc
    rw [← Bool.not_eq_true, same_iff, components_join_of_descends hnew.components_ne_nil hrel]
    intro heq
    have hstarts : c.file.startsWith new = true := by
      rw [startsWith, heq]
      exact List.isPrefixOf_iff_prefix.mpr (List.prefix_append _ _)
    rw [hfile c hc] at hstarts
    cases hstarts
  have hafter := find?_join hold hdirectory hnew hrel
  have hbefore := find?_join hold hdirectory hold hrel
  rw [hnowhere, Option.none_or] at hafter
  cases hfirst : db.commands.find? (·.file.same (old.join rel)) with
  | none =>
    rw [hfirst, Option.map_none] at hafter hbefore
    rw [hafter, hbefore]
    refine ⟨⟨?_, ?_⟩, ?_⟩
    · rintro ⟨moved, hnone⟩
      cases hnone
    · rintro ⟨c, hnone⟩
      cases hnone
    · intro c moved hnone
      cases hnone
  | some c =>
    rw [hfirst, Option.map_some] at hafter hbefore
    rw [hafter, hbefore, Option.some_or]
    refine ⟨⟨fun _ => ⟨c, rfl⟩, fun _ => ⟨_, rfl⟩⟩, ?_⟩
    rintro _ _ ⟨⟩ ⟨⟩
    obtain ⟨hc, before, after, hsplit, hearlier⟩ := List.find?_eq_some_iff_append.mp hfirst
    refine ⟨rfl, ?_, ?_, before, after, hsplit, hc, ?_⟩
    · exact (same_iff _ _).mpr (components_normalize_of_isNormal hnew new)
    · exact (same_iff _ _).mpr
        (components_normalize_of_isNormal (hnew.join_of_descends hrel) new)
    · intro b hb
      exact Bool.not_eq_true' _ ▸ hearlier b hb

/-- A database of a checkout at `/old` that builds one file twice. -/
def oldCheckout : Database :=
  ⟨⟨"/w/compile_commands.json"⟩,
    [⟨⟨"/old"⟩, ⟨"/old/src/b.c"⟩, "cc b.c"⟩, ⟨⟨"/old"⟩, ⟨"/old/src/a.c"⟩, "cc -O2 a.c"⟩,
      ⟨⟨"/old"⟩, ⟨"/old/src/a.c"⟩, "cc -O3 a.c"⟩]⟩

theorem find?_of_moved_twice :
    let rel : Path := ⟨"src/a.c"⟩
    (⟨"/old"⟩ : Path).IsNormal ∧ (⟨"/w"⟩ : Path).IsNormal ∧ rel.Descends ∧
      (∀ c ∈ oldCheckout.commands, c.directory.same ⟨"/old"⟩ = true) ∧
      (∀ c ∈ oldCheckout.commands, c.file.startsWith ⟨"/w"⟩ = false) ∧
      ∃ moved, oldCheckout.find? ((⟨"/w"⟩ : Path).join rel) ⟨"/w"⟩ = some moved ∧
        moved.line = "cc -O2 a.c" ∧ moved.file.same ⟨"/w/src/a.c"⟩ = true := by
  intro rel
  have hold : (⟨"/old"⟩ : Path).IsNormal := ⟨["old".toList], by decide +kernel⟩
  have hnew : (⟨"/w"⟩ : Path).IsNormal := ⟨["w".toList], by decide +kernel⟩
  have hrel : rel.Descends := ⟨["src".toList, "a.c".toList], by decide, by decide +kernel⟩
  have hdirectory : ∀ c ∈ oldCheckout.commands, c.directory.same ⟨"/old"⟩ = true := by
    decide +kernel
  have hfile : ∀ c ∈ oldCheckout.commands, c.file.startsWith ⟨"/w"⟩ = false := by
    decide +kernel
  have hfound : oldCheckout.find? ((⟨"/old"⟩ : Path).join rel) ⟨"/old"⟩ =
      some ⟨⟨"/old"⟩, ⟨"/old/src/a.c"⟩, "cc -O2 a.c"⟩ := by
    decide +kernel
  have hjoin : (⟨"/w"⟩ : Path).join rel = ⟨"/w/src/a.c"⟩ := by decide +kernel
  obtain ⟨hiff, hsame⟩ := find?_of_moved hold hnew hrel hdirectory hfile
  obtain ⟨moved, hmoved⟩ := hiff.mpr ⟨_, hfound⟩
  obtain ⟨hline, -, hmovedFile, -⟩ := hsame _ moved hfound hmoved
  exact ⟨hold, hnew, hrel, hdirectory, hfile, moved, hmoved, hline, hjoin ▸ hmovedFile⟩

end Database

namespace Resolver

open CompilerRemarks.Path Database

/-! ## Resolving -/

variable {settings : Settings} {files : Files} {source root : Path}

/-- A candidate holds records whose paths are in normal form. -/
theorem isNormal_of_candidate (hfiles : files.WellNamed) (hroot : root.IsNormal)
    (hsource : source.IsNormal) {p : Path} (hp : p ∈ candidates settings files source root)
    {records : List Json} {c : Command} (hc : c ∈ (ofJson p records).commands) :
    c.directory.IsNormal ∧ c.file.IsNormal ∧ c.file.IsSpelled := by
  obtain ⟨d, hd, rfl⟩ := List.mem_map.mp hp
  have hclimb : .parent ∉ source.components := fun hparent => (hsource.ne_of_mem hparent).2 rfl
  have hnormal := isNormal_of_mem_directories hfiles hroot hclimb hd
  obtain ⟨record, -, hrecord⟩ := exists_record_of_mem hc
  exact isNormal_of_ofRecord (isNormal_baseOf hnormal) hrecord

/-- A search loads databases whose paths are in normal form. -/
theorem isNormal_of_load (hfiles : files.WellNamed) (hroot : root.IsNormal)
    (hsource : source.IsNormal) {p : Path} (hp : p ∈ candidates settings files source root)
    {latch latch' : Latch} {db : Database}
    (h : Database.load files p latch = (.ok db, latch')) : db.IsNormal := by
  rw [load_eq] at h
  split at h
  · cases h
  · cases h
    intro c hc
    have hnormal := isNormal_of_candidate hfiles hroot hsource hp hc
    exact ⟨hnormal.1, hnormal.2.1⟩

theorem exists_of_answerOf {chosen : Option (Path × List Json)} {c : Command}
    (h : answerOf source root chosen = .found c) :
    ∃ p records, chosen = some (p, records) ∧ (ofJson p records).find? source root = some c := by
  cases chosen with
  | none => cases h
  | some database =>
    obtain ⟨p, records⟩ := database
    cases hfind : (ofJson p records).find? source root with
    | none =>
      rw [answerOf, hfind] at h
      cases h
    | some found =>
      rw [answerOf, hfind] at h
      cases h
      exact ⟨p, records, rfl, hfind⟩

theorem mem_of_firstDatabase? {tried : List Path} {p : Path} {records : List Json}
    (h : firstDatabase? files tried = some (p, records)) : p ∈ tried := by
  obtain ⟨before, q, after, hsplit, hq, -⟩ := List.findSome?_eq_some_iff.mp h
  obtain ⟨found, -, heq⟩ := Option.map_eq_some_iff.mp hq
  cases heq
  rw [hsplit]
  exact List.mem_append_right before List.mem_cons_self

/-- A record that is found is one of the file that was asked for, written the
    same way. -/
theorem file_of_found (hfiles : files.WellNamed) (hroot : root.IsNormal)
    (hsource : source.IsNormal) (hspelled : source.IsSpelled) {p : Path}
    (hp : p ∈ candidates settings files source root) {records : List Json} {c : Command}
    (h : (ofJson p records).find? source root = some c) : c.file = source := by
  have hkept := components_normalize_of_isNormal hsource root
  rcases file_of_find? h with ⟨hc, hsame⟩ | hfile
  · -- a record of the same file, and there is one way to write that file
    have hrecord := (isNormal_of_candidate hfiles hroot hsource hp hc).2.2
    exact hrecord.eq_of_components hspelled (((same_iff _ _).mp hsame).trans hkept)
  · have hwritten := isSpelled_normalize hroot (.inl hsource.components_ne_nil)
    rw [hfile]
    exact hwritten.eq_of_components hspelled hkept

/-- A search loads databases whose paths are in normal form. In such a database
    a file strictly below the root is answered by the first record of that file,
    or else by the first record that has it at the same place below its own
    directory, moved to the root. So whatever is resolved is the file that was
    asked for. -/
theorem chosen_record (hfiles : files.WellNamed) (settings : Settings) (source root : Path) :
    let root' := root.normalize files.workingDirectory
    let source' := source.normalize root'
    (∀ p ∈ candidates settings files source' root', ∀ latch latch' db,
      Database.load files p latch = (.ok db, latch') → db.IsNormal) ∧
    (∀ (db : Database) (top target : Path), db.IsNormal → top.IsNormal →
      (target.normalize top).startsWith top = true → (target.normalize top).same top = false →
      ∃ rel : Path, rel.Descends ∧ (top.join rel).same (target.normalize top) = true ∧
        IsChoice db top (target.normalize top) rel (db.find? target top)) ∧
    ∀ latch c, (resolve settings files latch source root).1 = .found c → c.file = source' := by
  intro root' source'
  have hroot : root'.IsNormal := isNormal_normalize hfiles.isNormal_workingDirectory root
  have hsource : source'.IsNormal := isNormal_normalize hroot source
  refine ⟨?_, ?_, ?_⟩
  · intro p hp latch latch' db hload
    exact isNormal_of_load hfiles hroot hsource hp hload
  · intro db top target hdb htop hstarts hne
    have htarget : (target.normalize top).IsNormal := isNormal_normalize htop target
    obtain ⟨rel, hrel, hbelow⟩ := htarget.exists_descends htop hstarts hne
    refine ⟨rel, hrel, ?_, isChoice_find? hdb htop hrel hbelow⟩
    rw [same_iff, hbelow, components_join_of_descends htop.components_ne_nil hrel]
  · intro latch c hfound
    have hspelled : root'.IsSpelled :=
      isSpelled_normalize hfiles.isNormal_workingDirectory (.inr hfiles.isSpelled_workingDirectory)
    have hanswer : answerOf source' root'
        (firstDatabase? files (candidates settings files source' root')) = .found c :=
      (congrArg Prod.fst (search_eq files source' root' latch _)).symm.trans hfound
    obtain ⟨p, records, hchosen, hfind⟩ := exists_of_answerOf hanswer
    exact file_of_found hfiles hroot hsource (isSpelled_normalize hroot (.inr hspelled))
      (mem_of_firstDatabase? hchosen) hfind

/-- A record of `src/a.c` as it is written in a database. -/
def recordText (directory line : String) : List Char :=
  "\x7b\"file\": \"src/a.c\", \"directory\": \"".toList ++ directory.toList ++
    "\", \"command\": \"".toList ++ line.toList ++ "\"\x7d".toList

/-- Two records at one place below their directories, the first one of a
    checkout that is somewhere else. -/
def twoCheckouts : List Char :=
  ['['] ++ recordText "/old" "cc old" ++ [','] ++ recordText "/w" "cc here" ++ [']']

/-- A workspace with these records in its database. -/
def checkout : Files :=
  { root := .directory [("w".toList, .directory [("compile_commands.json".toList,
      .file (Text.Utf8.encode twoCheckouts) false)])]
    here := ["w".toList] }

theorem checkout_wellNamed : checkout.WellNamed where
  root := by
    refine Entry.wellNamed_directory (List.forall_mem_singleton.mpr ⟨by decide, ?_⟩)
    refine Entry.wellNamed_directory (List.forall_mem_singleton.mpr ⟨by decide, ?_⟩)
    intro place entries hat
    cases place <;> cases hat
  here := by decide

/-- The record of the workspace is chosen although the other comes before it. -/
theorem chosen_record_here :
    let elsewhere : Command := ⟨⟨"/old"⟩, ⟨"/old/src/a.c"⟩, "cc old"⟩
    let here : Command := ⟨⟨"/w"⟩, ⟨"/w/src/a.c"⟩, "cc here"⟩
    (∃ db, (Database.load checkout ⟨"/w/compile_commands.json"⟩ .new).1 = .ok db ∧
      db.commands = [elsewhere, here] ∧ db.IsNormal ∧
      db.find? ⟨"src/a.c"⟩ ⟨"/w"⟩ = some here) ∧
    (resolve {} checkout .new ⟨"src/a.c"⟩ ⟨"."⟩).1 = .found here ∧ here.file = ⟨"/w/src/a.c"⟩ := by
  intro elsewhere here
  obtain ⟨hnormal, hchoice, hfile⟩ := chosen_record checkout_wellNamed {} ⟨"src/a.c"⟩ ⟨"."⟩
  have hroot : Path.normalize ⟨"."⟩ checkout.workingDirectory = ⟨"/w"⟩ := by decide +kernel
  have hsource : Path.normalize ⟨"src/a.c"⟩ ⟨"/w"⟩ = ⟨"/w/src/a.c"⟩ := by decide +kernel
  have htop : (⟨"/w"⟩ : Path).IsNormal := ⟨["w".toList], by decide +kernel⟩
  have htried : candidates {} checkout ⟨"/w/src/a.c"⟩ ⟨"/w"⟩ =
      [⟨"/w/compile_commands.json"⟩, ⟨"/w/src/compile_commands.json"⟩] := by
    decide +kernel
  have hread : (recordsIn checkout ⟨"/w/compile_commands.json"⟩).toOption.map
      (fun records => (ofJson ⟨"/w/compile_commands.json"⟩ records).commands) =
        some [elsewhere, here] := by
    decide +kernel
  rw [hroot, hsource, htried] at hnormal
  rw [hroot, hsource] at hfile
  cases hrecords : recordsIn checkout ⟨"/w/compile_commands.json"⟩ with
  | error e =>
    rw [hrecords] at hread
    cases hread
  | ok records =>
    rw [hrecords] at hread
    have hcommands := Option.some.inj hread
    have hload : Database.load checkout ⟨"/w/compile_commands.json"⟩ .new =
        (.ok (ofJson ⟨"/w/compile_commands.json"⟩ records),
          Latch.new.raiseAll (skipNotices ⟨"/w/compile_commands.json"⟩ records)) := by
      rw [load_eq, hrecords]
    have hdb := hnormal _ List.mem_cons_self _ _ _ hload
    have hfind : ∀ target : Path, target.normalize ⟨"/w"⟩ = ⟨"/w/src/a.c"⟩ →
        (ofJson ⟨"/w/compile_commands.json"⟩ records).find? target ⟨"/w"⟩ = some here := by
      intro target htarget
      obtain ⟨rel, -, -, hanswer⟩ := hchoice _ ⟨"/w"⟩ target hdb htop
        (by rw [htarget]; decide +kernel) (by rw [htarget]; decide +kernel)
      rw [htarget] at hanswer
      exact hanswer.of_file [elsewhere] here [] hcommands (by decide +kernel) (by decide +kernel)
    have hfirst : firstDatabase? checkout
        [⟨"/w/compile_commands.json"⟩, ⟨"/w/src/compile_commands.json"⟩] =
          some (⟨"/w/compile_commands.json"⟩, records) := by
      have hthere : checkout.isFile ⟨"/w/compile_commands.json"⟩ = true := by decide +kernel
      rw [firstDatabase?, List.findSome?_cons, recordsAt?, inspect, if_pos hthere, hrecords]
      rfl
    have hfound : (resolve {} checkout .new ⟨"src/a.c"⟩ ⟨"."⟩).1 = .found here := by
      rw [resolve, hroot, hsource, htried, search_eq, hfirst, answerOf,
        hfind ⟨"/w/src/a.c"⟩ (by decide +kernel)]
    refine ⟨⟨_, congrArg Prod.fst hload, hcommands, hdb, hfind _ hsource⟩, hfound, ?_⟩
    exact hfile .new here hfound

end Resolver

end CompilerRemarks
