/-
  CompilerRemarks.Proofs.Database.Selection

  Which database answers a search. A candidate is missing, malformed or a
  database (`inspect`), and the first database among the candidates decides the
  answer alone (`search_eq`). The others leave nothing but the notice for the
  first malformed one before it.
-/
import CompilerRemarks.Database.Resolver
import CompilerRemarks.Proofs.Notice
import CompilerRemarks.Proofs.Text.Utf8

namespace CompilerRemarks

/-- What is read of a file with a text in UTF-8. -/
theorem Files.readText_of_read {files : Files} {p : Path} {text : List Char}
    (h : files.read p = .ok (Text.Utf8.encode text)) : files.readText p = .ok text := by
  simp only [Files.readText, h, bind, Except.bind, Text.Utf8.decode?_encode]

namespace Database

/-! ## Loading -/

/-- The JSON array that a file holds. -/
def recordsIn (files : Files) (path : Path) : Except Failure (List Json) :=
  match files.readText path with
  | .error e => .error (.file e)
  | .ok text =>
    match Json.ofChars? text with
    | some (.array records) => .ok records
    | _ => .error .json

/-- The database of some records: those that are valid. -/
def ofJson (path : Path) (records : List Json) : Database :=
  ⟨path, records.filterMap fun record => (ofRecord (baseOf path) record).toOption⟩

/-- The notice for a numbered record, if it is skipped. -/
def skipped? (path : Path) (numbered : Json × Nat) : Option Notice :=
  match ofRecord (baseOf path) numbered.1 with
  | .ok _ => none
  | .error d => some (skipNotice path numbered.2 d)

/-- The notices for the records that are skipped. -/
def skipNotices (path : Path) (records : List Json) : List Notice :=
  records.zipIdx.filterMap (skipped? path)

theorem ofRecords_eq (path : Path) (latch : Latch) (records : List Json) (start : Nat) :
    ofRecords path (baseOf path) latch (records.zipIdx start) =
      ((ofJson path records).commands,
        latch.raiseAll ((records.zipIdx start).filterMap (skipped? path))) := by
  induction records generalizing latch start with
  | nil => rfl
  | cons record rest ih =>
    rw [List.zipIdx_cons, ofRecords]
    cases hrecord : ofRecord (baseOf path) record with
    | ok c => simp [ih, ofJson, skipped?, hrecord, Except.toOption]
    | error d => simp [ih, ofJson, skipped?, hrecord, Except.toOption, Latch.raiseAll_cons]

theorem load_eq (files : Files) (path : Path) (latch : Latch) :
    load files path latch =
      match recordsIn files path with
      | .error e => (.error e, latch)
      | .ok records => (.ok (ofJson path records), latch.raiseAll (skipNotices path records)) := by
  unfold load recordsIn
  cases files.readText path with
  | error e => rfl
  | ok text =>
    cases hjson : Json.ofChars? text with
    | none => simp only [hjson]
    | some json =>
      cases json with
      | array records => simp only [hjson, ofRecords_eq]; rfl
      | _ => simp only [hjson]

end Database

namespace Resolver

open Database Notice

/-! ## Candidates -/

/-- What a candidate turns out to be. -/
inductive Candidate where
  /-- There is no such file. -/
  | missing
  /-- A file that cannot be read, or holds no JSON array. -/
  | malformed (e : Failure)
  | database (records : List Json)

/-- What is found at the path of a candidate. -/
def inspect (files : Files) (p : Path) : Candidate :=
  if files.isFile p then
    match recordsIn files p with
    | .error e => .malformed e
    | .ok records => .database records
  else .missing

/-- The records of a candidate that is a database. -/
def recordsAt? (files : Files) (p : Path) : Option (List Json) :=
  match inspect files p with
  | .database records => some records
  | _ => none

/-- The notice for a candidate that is malformed. -/
def malformedAt? (files : Files) (p : Path) : Option Notice :=
  match inspect files p with
  | .malformed e => some (malformedNotice p e)
  | _ => none

theorem search_cons (files : Files) (source root : Path) (latch : Latch) (p : Path)
    (rest : List Path) :
    search files source root latch (p :: rest) =
      match inspect files p with
      | .missing => search files source root latch rest
      | .malformed e => search files source root (latch.raise (malformedNotice p e)) rest
      | .database records =>
        let latch := latch.raiseAll (skipNotices p records)
        match (ofJson p records).find? source root with
        | some c => (.found c, latch)
        | none => (.noMatchingEntry, latch.raise (noMatchNotice p source)) := by
  unfold inspect
  rewrite [search]
  split
  · rw [load_eq]
    cases recordsIn files p with
    | error e => rfl
    | ok records => rfl
  · rfl

/-! ## Searching -/

/-- The first database among some candidates. -/
def firstDatabase? (files : Files) (candidates : List Path) : Option (Path × List Json) :=
  candidates.findSome? fun p => (recordsAt? files p).map (p, ·)

/-- The candidates before the first database. -/
def before (files : Files) (candidates : List Path) : List Path :=
  candidates.takeWhile fun p => (recordsAt? files p).isNone

/-- The answer of a search that goes to a database, or to none. -/
def answerOf (source root : Path) : Option (Path × List Json) → Lookup
  | none => .noDatabase
  | some (p, records) =>
    match (ofJson p records).find? source root with
    | some c => .found c
    | none => .noMatchingEntry

/-- The notices of a search that goes to a database, or to none. -/
def noticesOf (source root : Path) : Option (Path × List Json) → List Notice
  | none => [missingNotice root]
  | some (p, records) =>
    skipNotices p records ++
      match (ofJson p records).find? source root with
      | some _ => []
      | none => [noMatchNotice p source]

theorem search_eq (files : Files) (source root : Path) (latch : Latch) (candidates : List Path) :
    search files source root latch candidates =
      (answerOf source root (firstDatabase? files candidates),
        latch.raiseAll ((before files candidates).filterMap (malformedAt? files) ++
          noticesOf source root (firstDatabase? files candidates))) := by
  induction candidates generalizing latch with
  | nil => rfl
  | cons p rest ih =>
    rw [search_cons]
    cases hp : inspect files p with
    | missing =>
      have hrecords : recordsAt? files p = none := by rw [recordsAt?, hp]
      have hnotice : malformedAt? files p = none := by rw [malformedAt?, hp]
      simp [ih, firstDatabase?, before, hrecords, hnotice]
    | malformed e =>
      have hrecords : recordsAt? files p = none := by rw [recordsAt?, hp]
      have hnotice : malformedAt? files p = some (malformedNotice p e) := by rw [malformedAt?, hp]
      simp [ih, firstDatabase?, before, hrecords, hnotice, Latch.raiseAll_cons]
    | database records =>
      have hrecords : recordsAt? files p = some records := by rw [recordsAt?, hp]
      have hfirst : firstDatabase? files (p :: rest) = some (p, records) := by
        simp [firstDatabase?, hrecords]
      have hbefore : before files (p :: rest) = [] := by
        simp [before, hrecords]
      rw [hfirst, hbefore, answerOf, noticesOf]
      cases hfind : (ofJson p records).find? source root with
      | some c => simp [hfind]
      | none => simp [hfind, Latch.raiseAll]

/-! ## Notices -/

theorem kind_of_malformedAt? {files : Files} {p : Path} {n : Notice}
    (h : malformedAt? files p = some n) : n.kind = .malformedDatabase := by
  rw [malformedAt?] at h
  split at h
  · cases h
    rfl
  · cases h

theorem kind_of_mem_skipNotices {p : Path} {records : List Json} {n : Notice}
    (h : n ∈ skipNotices p records) :
    n.kind ≠ .malformedDatabase ∧ n.kind ≠ .noMatchingCommand := by
  obtain ⟨numbered, -, hskipped⟩ := List.mem_filterMap.mp h
  rw [skipped?] at hskipped
  split at hskipped
  · cases hskipped
  · rename_i d _
    cases hskipped
    cases d <;> exact ⟨nofun, nofun⟩

theorem kind_of_mem_noticesOf {source root : Path} {chosen : Option (Path × List Json)}
    {n : Notice} (h : n ∈ noticesOf source root chosen) : n.kind ≠ .malformedDatabase := by
  cases chosen with
  | none =>
    rw [List.mem_singleton.mp h]
    exact nofun
  | some database =>
    rcases List.mem_append.mp h with hskip | hmatch
    · exact (kind_of_mem_skipNotices hskip).1
    · split at hmatch
      · exact absurd hmatch List.not_mem_nil
      · rw [List.mem_singleton.mp hmatch]
        exact nofun

/-- The notices that a new latch queues in a search. -/
theorem pending_search (files : Files) (source root : Path) (candidates : List Path) :
    (search files source root .new candidates).2.pending =
      ((before files candidates).filterMap (malformedAt? files)).head?.toList ++
        oncePerKind (noticesOf source root (firstDatabase? files candidates)) := by
  have hmalformed : ∀ n ∈ (before files candidates).filterMap (malformedAt? files),
      n.kind = .malformedDatabase := by
    intro n hn
    obtain ⟨p, -, hp⟩ := List.mem_filterMap.mp hn
    exact kind_of_malformedAt? hp
  rw [search_eq, Latch.pending_raiseAll_new, oncePerKind_append_of_disjoint,
    oncePerKind_of_same_kind hmalformed]
  intro m hm n hn
  rw [hmalformed n hn]
  exact kind_of_mem_noticesOf hm

theorem oncePerKind_noticesOf (source root p : Path) (records : List Json) :
    oncePerKind (noticesOf source root (some (p, records))) =
      oncePerKind (skipNotices p records) ++
        if ((ofJson p records).find? source root).isSome then [] else [noMatchNotice p source] := by
  rw [noticesOf]
  cases (ofJson p records).find? source root with
  | some c => simp
  | none =>
    rw [oncePerKind_append_of_disjoint]
    · rfl
    · intro m hm n hn
      rw [List.mem_singleton.mp hm]
      exact (kind_of_mem_skipNotices hn).2.symm

/-! ## Resolving -/

theorem firstDatabase?_eq_none_iff {files : Files} {candidates : List Path} :
    firstDatabase? files candidates = none ↔ ∀ p ∈ candidates, recordsAt? files p = none := by
  rw [firstDatabase?, List.findSome?_eq_none_iff]
  simp

theorem firstDatabase?_append_cons {files : Files} {earlier : List Path}
    (h : ∀ q ∈ earlier, recordsAt? files q = none) {p : Path} {records : List Json}
    (hp : recordsAt? files p = some records) (later : List Path) :
    firstDatabase? files (earlier ++ p :: later) = some (p, records) := by
  have hearlier := firstDatabase?_eq_none_iff.mpr h
  rw [firstDatabase?] at hearlier
  rw [firstDatabase?, List.findSome?_append, hearlier, List.findSome?_cons, hp]
  rfl

theorem answerOf_eq_noDatabase_iff {source root : Path} {chosen : Option (Path × List Json)} :
    answerOf source root chosen = .noDatabase ↔ chosen = none := by
  cases chosen with
  | none => exact ⟨fun _ => rfl, fun _ => rfl⟩
  | some database =>
    rw [answerOf]
    split <;> simp

/-- A workspace with an empty database in a build directory, and with more at
    its root. -/
def workspaceWith (more : List (List Char × Entry)) : Files :=
  let database := [("compile_commands.json".toList, .file [91, 93] false)]
  { root := .directory [("w".toList, .directory (("build".toList, .directory database) :: more))]
    here := [] }

end Resolver

end CompilerRemarks
