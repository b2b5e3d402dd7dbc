/-
  CompilerRemarks.Proofs.Cli.Words

  Command lines are read word by word, so what stands before a command is read
  without regard to what stands behind it (`Reading.scan_append`,
  `Invocation.parse_front`). Two command lines with the same words before the
  command and the same file behind it therefore have the same globals, or are
  refused alike.
-/
import CompilerRemarks.Cli.Invocation
import CompilerRemarks.Remark.Query

namespace CompilerRemarks.Cli

namespace Reading

variable {place : Option Verb} {r r' : Reading} {words : List String} {file : String}

/-! ## Words read one after the other -/

/-- Reads one word; `none` for a command, or for help on one. -/
def readWord? (place : Option Verb) (r : Reading) (word : String) :
    Option (Except Usage Reading) :=
  match classify place r word with
  | .verb _ => none
  | .help => none
  | .divider => some (.ok { r with isTrailing := true })
  | .long name attached => some (r.long place name attached)
  | .letters cs => some (r.letters place cs)
  | .plain => some (r.plain place word)

theorem scan_cons {word : String} {next : Except Usage Reading}
    (h : readWord? place r word = some next) (rest : List String) :
    scan place r (word :: rest) = next.bind (scan place · rest) := by
  rw [readWord?] at h
  rw [scan]
  cases hword : classify place r word with
  | verb v => rw [hword] at h; cases h
  | help => rw [hword] at h; cases h
  | divider =>
    rw [hword] at h
    cases h
    rfl
  | long name attached =>
    simp only [hword] at h ⊢
    cases h
    cases r.long place name attached <;> rfl
  | letters cs =>
    simp only [hword] at h ⊢
    cases h
    cases r.letters place cs <;> rfl
  | plain =>
    simp only [hword] at h ⊢
    cases h
    cases r.plain place word <;> rfl

/-- Behind a command nothing is read any more. -/
theorem scan_cons_ne {word : String} (h : readWord? place r word = none) (rest : List String) :
    scan place r (word :: rest) ≠ .ok (r', none) := by
  intro hscan
  rw [readWord?] at h
  rw [scan] at hscan
  cases hword : classify place r word with
  | verb v => rw [hword] at hscan; cases hscan
  | help => rw [hword] at hscan; cases hscan
  | divider => rw [hword] at h; cases h
  | long name attached => rw [hword] at h; cases h
  | letters cs => rw [hword] at h; cases h
  | plain => rw [hword] at h; cases h

/-- Words that hold no command are read before those behind them. -/
theorem scan_append (h : scan place r words = .ok (r', none)) (more : List String) :
    scan place r (words ++ more) = scan place r' more := by
  induction words generalizing r with
  | nil =>
    have hsame : r = r' := by
      rw [scan] at h
      exact congrArg Prod.fst (Except.ok.inj h)
    rw [hsame, List.nil_append]
  | cons word rest ih =>
    cases hword : readWord? place r word with
    | none => exact absurd h (scan_cons_ne hword rest)
    | some next =>
      rw [scan_cons hword] at h
      rw [List.cons_append, scan_cons hword]
      cases next with
      | error u => cases h
      | ok r => exact ih h

/-- Words before a command: options with all of their values. -/
structure IsFront (words : List String) (before : Reading) : Prop where
  read : scan none {} words = .ok (before, none)
  complete : before.isAwaiting = false
  named : before.isTrailing = false

/-- A name of a command ends what stands before it. -/
theorem IsFront.scan_verb {before : Reading} (h : IsFront words before) (v : Verb)
    (rest : List String) :
    scan none {} (words ++ v.name :: rest) = .ok (before, some (v, rest)) := by
  have hverb : Verb.ofName? v.name = some v := by cases v <;> decide +kernel
  have hname : Verb.isName v.name = true := by cases v <;> decide +kernel
  have hword : classify none before v.name = .verb v := by
    simp [classify, h.named, h.complete, hverb, hname]
  rw [scan_append h.read, scan, hword]

/-- A word that is a file behind a command, and no option. -/
def IsFile (word : String) : Prop :=
  wordOf word.toList = .plain

/-- A file is the last word to be looked at. -/
theorem scan_file {v : Verb} (hfile : IsFile file) (htrailing : r.isTrailing = false)
    (hawaiting : r.isAwaiting = false) (hfirst : r.hasFile = false) :
    scan (some v) r [file] = r.settle.map fun r =>
      ({ r with hasFile := true, pending := some (.file, some file) }, none) := by
  have hword : classify (some v) r file = .plain := by
    rw [classify, htrailing, if_neg Bool.false_ne_true]
    exact hfile
  rw [scan, hword, plain, hawaiting, hfirst]
  cases r.settle <;> rfl

end Reading

namespace Invocation

open Reading (IsFront IsFile)

/-- What stands before a command is checked last. -/
theorem parse_front {words : List String} {before : Reading} (h : IsFront words before) (v : Verb)
    (rest : List String) :
    parse (words ++ v.name :: rest) = (do
      let (behind, _) ← Reading.scan (some v) {} rest
      let behind ← behind.settle
      behind.check
      let task ← behind.task v
      let before ← before.settle
      before.check
      return ⟨Reading.globals before behind, task⟩) := by
  rw [parse, h.scan_verb]
  rfl

/-! ## Options and a file -/

/-- The globals of a command line that has options and a file behind its command,
    but no globals. -/
def frontGlobals (before : Reading) (file : String) : Except Usage Globals := do
  if file.isEmpty then .error .missingValue
  let before ← before.settle
  before.check
  return Reading.globals before {}

/-- Options of a command that make a task of a file, and what they are read as.
    None of them is a global. -/
structure Options (v : Verb) (task : Path → Task) where
  words : List String
  /-- What is read, with the last value still to be looked at. -/
  read : Reading
  settled : Reading
  scan_eq : Reading.scan (some v) {} words = .ok (read, none)
  named : read.isTrailing = false
  complete : read.isAwaiting = false
  fileless : read.hasFile = false
  settle_eq : read.settle = .ok settled
  unfiled : settled.has .file = false
  /-- What they come to once a file is found. -/
  task_eq : ∀ (file : Path) (behind : Reading), behind = { settled with
      found := (.file, .path file) :: settled.found, pending := none, hasFile := true } →
    behind.check = .ok () ∧ behind.task v = .ok (task file) ∧
      ∀ before, Reading.globals before behind = Reading.globals before {}

/-- The file that was read last is found, if it has a name at all. -/
theorem settle_file {r : Reading} (hnew : r.has .file = false) (file : String) :
    Reading.settle { r with hasFile := true, pending := some (.file, some file) } =
      if file.isEmpty then .error .missingValue
      else .ok { r with
        found := (.file, .path ⟨file⟩) :: r.found, pending := none, hasFile := true } := by
  have hfirst : Reading.has { r with hasFile := true, pending := none } .file = false := hnew
  cases hempty : file.isEmpty <;>
    simp [Reading.settle, Reading.record, hfirst, Parameter.form, Form.takesValue, Form.read,
      hempty]

/-- Options and a file behind a command are the task that they make, under the
    globals that stand before the command. -/
theorem parse_options {words : List String} {before : Reading} (h : IsFront words before)
    {v : Verb} {task : Path → Task} (o : Options v task) {file : String} (hfile : IsFile file) :
    parse (words ++ v.name :: (o.words ++ [file])) =
      (frontGlobals before file).map fun g => ⟨g, task ⟨file⟩⟩ := by
  obtain ⟨hcheck, htask, hglobals⟩ := o.task_eq ⟨file⟩ _ rfl
  rw [parse_front h, Reading.scan_append o.scan_eq,
    Reading.scan_file hfile o.named o.complete o.fileless, o.settle_eq]
  simp only [Except.map, bind, Except.bind, settle_file o.unfiled, frontGlobals]
  cases hempty : file.isEmpty with
  | true => rfl
  | false =>
    simp only [Bool.false_eq_true, if_false, hcheck, htask, hglobals]
    -- what stands before the command is the same on both sides
    cases before.settle with
    | error u => rfl
    | ok front =>
      dsimp only
      cases front.check <;> rfl

/-! ## The remarks of a whole file -/

/-- The words for every remark of a file, as JSON. -/
def remarksWords (file : String) : List String :=
  ["remarks", "--json", file]

/-- The words for the remarks between the first and the last line that there can
    be, under the label of all remarks, as JSON. -/
def rangeWords (file : String) : List String :=
  ["range", "--json", "--pass", "All remarks", "--start-line", "0", "--end-line", "4294967295",
    file]

/-- What the words for every remark ask for. -/
def remarksTask (file : Path) : Task :=
  .remarks file .json

/-- What the words for the remarks of all lines ask for. -/
def rangeTask (file : Path) : Task :=
  .range file ⟨0, maxWord, none, none, false⟩ (some Grouped.allLabel) true

def remarksOptions : Options .remarks remarksTask where
  words := ["--json"]
  read := { found := [(.json, .present)] }
  settled := { found := [(.json, .present)] }
  scan_eq := by rfl
  named := rfl
  complete := rfl
  fileless := rfl
  settle_eq := rfl
  unfiled := rfl
  task_eq := by
    rintro file _ rfl
    exact ⟨rfl, rfl, fun _ => rfl⟩

def rangeOptions : Options .range rangeTask where
  words := ["--json", "--pass", "All remarks", "--start-line", "0", "--end-line", "4294967295"]
  read := {
    found := [(.startLine, .number 0), (.pass, .text "All remarks"), (.json, .present)]
    pending := some (.endLine, some "4294967295") }
  settled := {
    found := [(.endLine, .number maxWord), (.startLine, .number 0), (.pass, .text "All remarks"),
      (.json, .present)] }
  scan_eq := by rfl
  named := rfl
  complete := rfl
  fileless := rfl
  settle_eq := by rfl
  unfiled := rfl
  task_eq := by
    rintro file _ rfl
    exact ⟨rfl, rfl, fun _ => rfl⟩

/-- The two command lines are refused alike, or ask for their tasks under the same
    globals. -/
theorem parse_whole_file {words : List String} {before : Reading} (h : IsFront words before)
    {file : String} (hfile : IsFile file) :
    parse (words ++ remarksWords file) =
        (frontGlobals before file).map (fun g => ⟨g, remarksTask ⟨file⟩⟩) ∧
      parse (words ++ rangeWords file) =
        (frontGlobals before file).map (fun g => ⟨g, rangeTask ⟨file⟩⟩) :=
  ⟨parse_options h remarksOptions hfile, parse_options h rangeOptions hfile⟩

example : parse (["--workspace", "/w"] ++ rangeWords "a.c") =
    .ok ⟨⟨some ⟨"/w"⟩, none, none, none⟩, rangeTask ⟨"a.c"⟩⟩ := by rfl

end Invocation

end CompilerRemarks.Cli
