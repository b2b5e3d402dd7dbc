/-
  CompilerRemarks.Proofs.Cli.Agreement

  Two ways to ask for every remark of a file. One command collects them and prints
  them; the other goes through a session, from its cache to the query, and prints
  what is behind the label of all remarks. Collecting gives both the same: the
  session adds a token to what the observer sees, which nobody trips
  (`Analysis.serveAlong_quiet`). So each shows what collecting came to (`Shows`),
  the second one unless it was cancelled, and a report can show one thing only:
  both agree (`remarks_and_range_agree`).
-/
import CompilerRemarks.Main
import CompilerRemarks.Proofs.Cli.Words
import CompilerRemarks.Proofs.Process.Observers
import CompilerRemarks.Proofs.Remark.Encoding
import CompilerRemarks.Proofs.Remark.Grouping
import CompilerRemarks.Proofs.Session.Course

namespace CompilerRemarks

/-! ## Serving in silence -/

namespace Analysis

variable {σ : Type} (arrival : Process.Done → List Collect.Event)

/-- An observer who leaves the session alone. -/
def quiet (hear : σ → String → σ) (seen : Session × σ) (line : String) : Session × σ :=
  (seen.1, hear seen.2 line)

/-- A request that is served in silence is answered from what is collected without
    a session, and leaves what that leaves. -/
theorem serveAlong_quiet (hear : σ → String → σ) (settings : Settings) (c : Command) (range : Range)
    (scene : Scene σ) (hvalid : range.isInverted = false)
    (hcold : scene.session.cached? c.file = none) (hidle : scene.session.running = none) :
    let produced := Producer.produceAlong arrival settings scene.files scene.latch c
      ⟨hear, fun _ => false⟩ scene.observer
    let served := serveAlong arrival settings c range (quiet hear) scene
    (∃ answer, served.1 = some answer ∧ Answers range produced.collected answer) ∧
      served.2.observer = produced.observer ∧ served.2.files = produced.files ∧
      served.2.latch = produced.latch := by
  intro produced served
  let t : Ticket := ⟨scene.session.started + 1⟩
  let begun := (scene.session.begin c.file range).2
  -- the token of the analysis that has just begun was not tripped
  have htoken : begun.token? t = some false := by
    simp [begun, t, Session.begin, hidle, Session.token?, Session.holder?]
  have hfollows : Observer.Follows ⟨hear, fun _ => false⟩ (observerOf (quiet hear) t)
      (fun x => (begun, x)) := by
    constructor
    · intro x line
      rfl
    · intro x
      simp [observerOf, htoken]
  let collected := collectAlong arrival settings c (quiet hear) t { scene with session := begun }
  have hcollected : collected =
      (produced.collected, ⟨begun, produced.files, produced.latch, produced.observer⟩) := by
    simp only [collected, collectAlong]
    rw [Producer.produceAlong_map hfollows]
    rfl
  have hconcluded : Concluded ⟨c.file, range⟩ range collected.1 served.1 served.2.session :=
    run_concluded (Holder.scene σ) (collectAlong arrival settings c (quiet hear))
      (q := ⟨c.file, range⟩) (w := scene) hvalid hcold hidle [] (congrArg (·.2.session) hcollected)
  have hstarted : served = _ := run_started (Holder.scene σ)
    (collectAlong arrival settings c (quiet hear)) (q := ⟨c.file, range⟩) (w := scene) hvalid hcold
    hidle
  -- what is done with the ticket afterwards touches the session alone
  have hworld : served.2 = { collected.2 with session := served.2.session } := by
    rw [hstarted]
    rfl
  rw [hcollected] at hconcluded hworld
  exact ⟨hconcluded.answer, by rw [hworld], by rw [hworld], by rw [hworld]⟩

end Analysis

namespace Cli

/-! ## What is collected -/

/-- How collecting the remarks of a file ends, or what stands in its way. -/
def Context.gather (arrival : Process.Done → List Collect.Event) (ctx : Context) (file : Path) :
    Except Chain Collected :=
  (ctx.sourceCommand (ctx.absolute file)).map fun c =>
    (Producer.produceAlong arrival ctx.settings ctx.files Latch.new c Context.hearing []).collected

/-- How collecting the remarks of a file ends under some globals, or what stands in
    its way. -/
def gather (arrival : Process.Done → List Collect.Event) (files : Files) (g : Globals)
    (file : Path) : Except Chain Collected :=
  (Context.load files g).bind fun ctx => ctx.gather arrival file

/-! ## What is shown -/

/-- Lines that list remarks: one text, which is a JSON array with the object of
    each remark in its order, so that its items are read as just these remarks. -/
structure Lists (remarks : List Remark) (lines : List String) : Prop where
  written : lines = [(Json.array (remarks.map Remark.toJson)).renderIndented]
  readBack : ∃ text items, lines = [text] ∧ Json.ofChars? text.toList = some (.array items) ∧
    items.mapM Remark.ofJson? = some remarks

/-- The array of remarks that a report prints lists them. -/
theorem lists_remarksJson (remarks : List Remark) :
    Lists remarks (Report.json (remarksJson remarks)) := by
  have hread : Json.ofChars? (remarksJson remarks).renderIndented.toList =
      some (.array (remarks.map Remark.toJson)) :=
    Json.ofChars?_renderIndented (Remark.fits_remarks remarks)
  exact ⟨rfl, _, _, rfl, hread, Remark.mapM_ofJson?_toJson remarks⟩

/-- A report shows as JSON what collecting came to: what stood in its way, a
    compiler that failed and printed no remark, or the remarks. -/
structure Shows (gathered : Except Chain Collected) (r : Report) : Prop where
  refused : ∀ chain, gathered = .error chain →
    r.output = [] ∧ r.failure = chain ∧ r.status = 1
  failed : ∀ message, gathered = .ok (.failed message []) →
    r.output = [] ∧ r.failure = ["compiler failed: " ++ message] ∧ r.status = 1
  printed : ∀ c, gathered = .ok c → (∀ message, c ≠ .failed message []) →
    Lists c.remarks r.output ∧ r.failure = [] ∧ r.status = 0

/-- Two reports that look the same to who reads standard output, what went wrong
    and the exit status. -/
structure Agree (a b : Report) : Prop where
  output : a.output = b.output
  failure : a.failure = b.failure
  status : a.status = b.status

/-- A report shows one thing at most. -/
theorem Shows.agree {gathered : Except Chain Collected} {a b : Report} (ha : Shows gathered a)
    (hb : Shows gathered b) : Agree a b := by
  have hshown : ∀ {output failure status},
      a.output = output ∧ a.failure = failure ∧ a.status = status →
      b.output = output ∧ b.failure = failure ∧ b.status = status → Agree a b := by
    rintro _ _ _ ⟨rfl, rfl, rfl⟩ ⟨houtput, hfailure, hstatus⟩
    exact ⟨houtput.symm, hfailure.symm, hstatus.symm⟩
  cases hg : gathered with
  | error chain => exact hshown (ha.refused chain hg) (hb.refused chain hg)
  | ok c =>
    by_cases hfailed : ∃ message, c = .failed message []
    · obtain ⟨message, rfl⟩ := hfailed
      exact hshown (ha.failed message hg) (hb.failed message hg)
    · have hprints : ∀ message, c ≠ .failed message [] := fun m h => hfailed ⟨m, h⟩
      obtain ⟨hlists, hdone⟩ := ha.printed c hg hprints
      obtain ⟨hlists', hdone'⟩ := hb.printed c hg hprints
      -- remarks are listed in one way
      exact hshown ⟨hlists.written, hdone⟩ ⟨hlists'.written, hdone'⟩

/-- A compiler that failed is reported just if it printed no remark. -/
theorem Shows.failure_iff {c : Collected} {r : Report} (h : Shows (.ok c) r) (message : String) :
    r.failure = ["compiler failed: " ++ message] ↔ c = .failed message [] := by
  constructor
  · intro hfailure
    by_cases hfailed : ∃ other, c = .failed other []
    · obtain ⟨other, rfl⟩ := hfailed
      have hother := (h.failed other rfl).2.1
      rw [hfailure, List.singleton_inj, String.append_right_inj] at hother
      rw [hother]
    · have hnone := (h.printed c rfl fun m hm => hfailed ⟨m, hm⟩).2.1
      rw [hfailure] at hnone
      cases hnone
  · rintro rfl
    exact (h.failed message rfl).2.1

/-- Complaints on standard error change nothing of what is shown. -/
theorem Shows.under {gathered : Except Chain Collected} {r : Report} (h : Shows gathered r)
    (errors : List String) : Shows gathered (r.under errors) :=
  ⟨h.refused, h.failed, h.printed⟩

theorem shows_failed {chain : Chain} (hne : chain ≠ []) :
    Shows (.error chain) (Report.failed chain) := by
  have hstatus : (Report.failed chain).status = 1 := by
    rw [Report.status, if_neg]
    simpa [Report.failed] using hne
  refine ⟨?_, nofun, nofun⟩
  rintro _ ⟨⟩
  exact ⟨rfl, rfl, hstatus⟩

/-- What was collected is shown by the command that prints all of it. -/
theorem shows_ofCollected (file : Path) (c : Collected) :
    Shows (.ok c) (Report.ofCollected file .json c) := by
  refine ⟨nofun, ?_, ?_⟩
  · rintro message ⟨⟩
    exact ⟨rfl, rfl, rfl⟩
  · rintro _ ⟨⟩ hprints
    cases c with
    | completed remarks => exact ⟨lists_remarksJson remarks, rfl, rfl⟩
    | cancelled remarks => exact ⟨lists_remarksJson remarks, rfl, rfl⟩
    | failed message remarks =>
      cases remarks with
      | nil => exact absurd rfl (hprints message)
      | cons r rest => exact ⟨lists_remarksJson (r :: rest), rfl, rfl⟩

/-- Behind the label of all remarks of all lines there is every remark. -/
theorem lists_everything {remarks : List Remark} {g : Grouped}
    (h : Remark.query remarks (.lines 0 maxWord) = .ok g) :
    Lists remarks (selectionLines g Grouped.allLabel true) := by
  have hle : (0 : UInt32) ≤ maxWord := UInt32.zero_le
  rw [Remark.query_of_le (Remark.key_lines_le hle), Remark.inRange_everything] at h
  obtain rfl := Except.ok.inj h
  exact lists_remarksJson remarks

/-- What was collected is shown by the command that goes through the session,
    unless it was cancelled. -/
theorem shows_ofAnswer {c : Collected} {answer : Analysis.Answer}
    (h : Analysis.Answers (.lines 0 maxWord) c answer)
    (hcancelled : ∀ remarks, c ≠ .cancelled remarks) :
    Shows (.ok c) (Report.ofAnswer (.lines 0 maxWord) (some Grouped.allLabel) true answer) := by
  have hvalid : (Range.lines 0 maxWord).isInverted ≠ true := by decide
  -- an answer says how collecting ended, and a query adds nothing but its errors
  cases h with
  | @remarks rs g hg =>
    refine ⟨nofun, nofun, ?_⟩
    rintro _ ⟨⟩ -
    exact ⟨lists_everything hg, rfl, rfl⟩
  | @incomplete message rs g hne hg =>
    refine ⟨nofun, ?_, ?_⟩
    · rintro _ ⟨⟩
      exact absurd rfl hne
    · rintro _ ⟨⟩ -
      exact ⟨lists_everything hg, rfl, rfl⟩
  | @failed message =>
    refine ⟨nofun, ?_, ?_⟩
    · rintro _ ⟨⟩
      exact ⟨rfl, rfl, rfl⟩
    · rintro _ ⟨⟩ hprints
      exact absurd rfl (hprints message)
  | @cancelled rs => exact absurd rfl (hcancelled rs)
  | inverted hinv => exact absurd hinv hvalid
  | incompleteInverted _ hinv => exact absurd hinv hvalid

/-! ## What stands in the way -/

namespace Context

variable (ctx : Context) (file : Path)

theorem ne_nil_of_checkSource {chain : Chain} (h : ctx.checkSource file = .error chain) :
    chain ≠ [] := by
  rintro rfl
  rw [checkSource] at h
  split at h <;> cases h

theorem ne_nil_of_commandFor {chain : Chain} (h : ctx.commandFor file = .error chain) :
    chain ≠ [] := by
  rintro rfl
  rw [commandFor] at h
  split at h
  · cases h
  · split at h <;> cases h

/-- A file without a compile command is refused with a message. -/
theorem ne_nil_of_sourceCommand {chain : Chain} (h : ctx.sourceCommand file = .error chain) :
    chain ≠ [] := by
  rw [sourceCommand] at h
  cases hsource : ctx.checkSource file with
  | error refusal =>
    rw [hsource] at h
    obtain rfl := Except.error.inj h
    exact ctx.ne_nil_of_checkSource file hsource
  | ok _ =>
    rw [hsource] at h
    exact ctx.ne_nil_of_commandFor file h

/-- Settings that cannot be loaded are refused with a message. -/
theorem ne_nil_of_load {files : Files} {g : Globals} {chain : Chain}
    (h : Context.load files g = .error chain) : chain ≠ [] := by
  rintro rfl
  have htrying : ∀ {α : Type} (message : String) (e : Except Failure α),
      trying message e ≠ .error [] := by
    intro α message e
    cases e <;> exact nofun
  have hsettings : ∀ workspace config, settingsOf files workspace config ≠ .error [] := by
    intro workspace config
    cases config <;> exact htrying _ _
  rw [Context.load] at h
  cases hloaded : settingsOf files (g.workspace.getD files.workingDirectory) g.config with
  | error refusal =>
    simp only [hloaded] at h
    obtain rfl := Except.error.inj h
    exact hsettings _ _ hloaded
  | ok settings =>
    simp only [hloaded] at h
    cases h

/-! ## Both commands -/

variable (arrival : Process.Done → List Collect.Event)

/-- The command that goes through the session answers from what is collected
    without it, for no one but the session is asked whether to cancel. -/
theorem range_of_command {c : Command}
    (hcommand : ctx.sourceCommand (ctx.absolute file) = .ok c) {range : Range}
    (hvalid : range.isInverted = false) (pass : Option String) (asJson : Bool) :
    let produced := Producer.produceAlong arrival ctx.settings ctx.files Latch.new c hearing []
    ∃ answer, Analysis.Answers range produced.collected answer ∧
      ctx.range arrival file range pass asJson =
        ((Report.ofAnswer range pass asJson answer).under (produced.observer.map complaintLine),
          produced.files) := by
  intro produced
  let hear := fun (heard : List String) (line : String) => heard ++ [line]
  let served := Analysis.serveAlong arrival ctx.settings c range (Analysis.quiet hear)
    ⟨Session.new, ctx.files, Latch.new, []⟩
  have hrange : ctx.range arrival file range pass asJson =
      (((served.1.map (Report.ofAnswer range pass asJson)).getD {}).under
        (served.2.observer.map complaintLine), served.2.files) := by
    simp only [Context.range, hcommand]
    rfl
  -- a new session is free and has nothing cached
  obtain ⟨⟨answer, hanswer, hanswers⟩, hobserver, hfiles, -⟩ := Analysis.serveAlong_quiet arrival
    hear ctx.settings c range ⟨Session.new, ctx.files, Latch.new, []⟩ hvalid rfl rfl
  have hserved : served.1 = some answer := hanswer
  refine ⟨answer, hanswers, ?_⟩
  rw [hrange, hserved, hobserver, hfiles]
  rfl

theorem shows_remarks :
    Shows (ctx.gather arrival file) (ctx.remarks arrival file .json).1 := by
  rw [gather, remarks]
  cases hcommand : ctx.sourceCommand (ctx.absolute file) with
  | error chain => exact shows_failed (ctx.ne_nil_of_sourceCommand _ hcommand)
  | ok c => exact (shows_ofCollected _ _).under _

theorem shows_range
    (hcancelled : ∀ partly, ctx.gather arrival file ≠ .ok (.cancelled partly)) :
    Shows (ctx.gather arrival file)
      (ctx.range arrival file (.lines 0 maxWord) (some Grouped.allLabel) true).1 := by
  have hvalid : (Range.lines 0 maxWord).isInverted = false := by decide
  rw [gather] at hcancelled ⊢
  cases hcommand : ctx.sourceCommand (ctx.absolute file) with
  | error chain =>
    rw [Context.range, hcommand]
    exact shows_failed (ctx.ne_nil_of_sourceCommand _ hcommand)
  | ok c =>
    rw [hcommand] at hcancelled
    obtain ⟨answer, hanswers, hrange⟩ :=
      ctx.range_of_command file arrival hcommand hvalid (some Grouped.allLabel) true
    rw [hrange]
    have hshows := shows_ofAnswer hanswers fun partly h =>
      hcancelled partly (congrArg Except.ok h)
    exact hshows.under _

/-- A compiler leaves the same files behind for both commands. -/
theorem files_range (format : Format) {range : Range} (hvalid : range.isInverted = false)
    (pass : Option String) (asJson : Bool) :
    (ctx.remarks arrival file format).2 =
      (ctx.range arrival file range pass asJson).2 := by
  cases hcommand : ctx.sourceCommand (ctx.absolute file) with
  | error chain => rw [remarks, Context.range, hcommand]
  | ok c =>
    obtain ⟨answer, -, hrange⟩ :=
      ctx.range_of_command file arrival hcommand hvalid pass asJson
    rw [hrange, remarks, hcommand]

end Context

section Run

variable (arrival : Process.Done → List Collect.Event) {files : Files} {g : Globals}

theorem gather_of_load {ctx : Context} (h : Context.load files g = .ok ctx) (file : Path) :
    gather arrival files g file = ctx.gather arrival file := by
  rw [gather, h]
  rfl

theorem gather_of_load_error {chain : Chain} (h : Context.load files g = .error chain)
    (file : Path) : gather arrival files g file = .error chain := by
  rw [gather, h]
  rfl

theorem Invocation.runAlong_of_load {ctx : Context} (h : Context.load files g = .ok ctx)
    (task : Task) :
    Invocation.runAlong arrival files ⟨g, task⟩ = ctx.perform arrival task := by
  rw [runAlong, h]

theorem Invocation.runAlong_of_load_error {chain : Chain}
    (h : Context.load files g = .error chain) (task : Task) :
    Invocation.runAlong arrival files ⟨g, task⟩ = (.failed chain, files) := by
  rw [runAlong, h]

/-- Collecting is not cancelled if nothing that happens says so. -/
theorem gather_ne_cancelled {arrival : Process.Done → List Collect.Event}
    (harrival : ∀ done, Collect.Event.cancelled ∉ arrival done) (files : Files) (g : Globals)
    (file : Path) (partly : List Remark) :
    gather arrival files g file ≠ .ok (.cancelled partly) := by
  have hnever : Context.hearing.Never := fun _ => rfl
  cases hload : Context.load files g with
  | error chain =>
    rw [gather_of_load_error arrival hload]
    exact nofun
  | ok ctx =>
    rw [gather_of_load arrival hload, Context.gather]
    cases ctx.sourceCommand (ctx.absolute file) with
    | error chain => exact nofun
    | ok c =>
      intro heq
      exact Producer.produceAlong_ne_cancelled hnever harrival _ _ _ _ _ partly
        (Except.ok.inj heq)

theorem shows_remarksTask (files : Files) (g : Globals) (file : Path) :
    Shows (gather arrival files g file)
      (Invocation.runAlong arrival files ⟨g, Invocation.remarksTask file⟩).1 := by
  cases hload : Context.load files g with
  | error chain =>
    rw [gather_of_load_error arrival hload, Invocation.runAlong_of_load_error arrival hload]
    exact shows_failed (Context.ne_nil_of_load hload)
  | ok ctx =>
    rw [gather_of_load arrival hload, Invocation.runAlong_of_load arrival hload]
    exact ctx.shows_remarks file arrival

theorem shows_rangeTask (files : Files) (g : Globals) (file : Path)
    (hcancelled : ∀ partly, gather arrival files g file ≠ .ok (.cancelled partly)) :
    Shows (gather arrival files g file)
      (Invocation.runAlong arrival files ⟨g, Invocation.rangeTask file⟩).1 := by
  cases hload : Context.load files g with
  | error chain =>
    rw [gather_of_load_error arrival hload, Invocation.runAlong_of_load_error arrival hload]
    exact shows_failed (Context.ne_nil_of_load hload)
  | ok ctx =>
    rw [gather_of_load arrival hload] at hcancelled ⊢
    rw [Invocation.runAlong_of_load arrival hload]
    exact ctx.shows_range file arrival hcancelled

theorem files_rangeTask (files : Files) (g : Globals) (file : Path) :
    (Invocation.runAlong arrival files ⟨g, Invocation.remarksTask file⟩).2 =
      (Invocation.runAlong arrival files ⟨g, Invocation.rangeTask file⟩).2 := by
  cases hload : Context.load files g with
  | error chain =>
    rw [Invocation.runAlong_of_load_error arrival hload,
      Invocation.runAlong_of_load_error arrival hload]
  | ok ctx =>
    rw [Invocation.runAlong_of_load arrival hload, Invocation.runAlong_of_load arrival hload]
    exact ctx.files_range file arrival .json (by decide) (some Grouped.allLabel) true

end Run

open Invocation (remarksWords rangeWords remarksTask rangeTask frontGlobals)

/-- A compile command that is started is collected from what reaches it. -/
theorem Context.gather_of_started {arrival : Process.Done → List Collect.Event} {ctx : Context}
    {file : Path} {c : Command} {done : Process.Done} {stdout stderr : List UInt8} {e : Exit}
    (hcommand : ctx.sourceCommand (ctx.absolute file) = .ok c)
    (hstarted : Producer.Started ctx.settings ctx.files c done)
    (htime : ctx.settings.timeout ≠ some 0)
    (harrives : Collect.Arrives stdout stderr e (arrival done)) :
    let told := Collect.toldOf (Remark.streamLines stderr) e
    let remarks := Remark.filterLines c.file (Remark.streamLines stdout)
    ctx.gather arrival file =
      .ok (if told = [] then .completed remarks else .failed ("\n".intercalate told) remarks) := by
  intro told remarks
  have hnever : Collect.Untripped hearing [] (Remark.streamLines stderr) := fun _ _ => rfl
  have hstart : hearing.isCancelled [] = false := rfl
  rw [gather, hcommand]
  show Except.ok (Producer.produceAlong _ _ _ _ _ _ _).collected = _
  rw [hstarted.produceAlong_eq htime hstart, Collect.run_arrives _ harrives hnever]

/-- A compile command that any plain system can run. -/
def plainGlobals : Globals :=
  ⟨none, none, some "cat a.c", none⟩

def plainContext : Context :=
  ⟨⟨"/"⟩, {}, .standard, some "cat a.c", none⟩

def plainCommand : Command :=
  ⟨⟨"/"⟩, ⟨"/a.c"⟩, "cat a.c"⟩

/-- A compiler that writes some output, complains and fails; its end is noticed
    before anything else. -/
def failingRun (stdout : List UInt8) (_ : Process.Done) : List Collect.Event :=
  [.exited (.code 1), .arrived .complaints (.bytes [119, 10]), .arrived .output (.bytes stdout),
    .arrived .output .ending, .arrived .complaints .ending]

theorem gather_failingRun (stdout : List UInt8) :
    gather (failingRun stdout) .standard plainGlobals ⟨"a.c"⟩ =
      .ok (.failed "w" (Remark.filterLines ⟨"/a.c"⟩ (Remark.streamLines stdout))) := by
  have hload : Context.load .standard plainGlobals = .ok plainContext := by rfl
  have hcommand : plainContext.sourceCommand (plainContext.absolute ⟨"a.c"⟩) =
      .ok plainCommand := by rfl
  have hcheck : Producer.check {} .standard plainCommand = .ok () := by rfl
  obtain ⟨done, hplain⟩ := Producer.exists_started
  have hstarted : Producer.Started {} .standard plainCommand done := ⟨hcheck, hplain.run⟩
  have harrives : Collect.Arrives stdout [119, 10] (.code 1) (failingRun stdout done) :=
    ⟨⟨[stdout], List.append_nil stdout, rfl⟩, ⟨[[119, 10]], rfl, rfl⟩, rfl⟩
  have hlines : Remark.streamLines [119, 10] = ["w"] := by decide
  have hgather := Context.gather_of_started hcommand hstarted (by decide) harrives
  rw [hlines] at hgather
  rw [gather_of_load _ hload, hgather]
  rfl

/-- What a compiler prints about a call that it did not inline. -/
def missedLines : List String :=
  ["--- !Missed", "Pass: inline", "Name: NoDefinition",
    "DebugLoc: \x7b File: a.c, Line: 4, Column: 3 \x7d", "Function: main", "Args: []", "..."]

def missedRecord : List UInt8 :=
  missedLines.flatMap fun line => Text.Utf8.encode (line.toList ++ ['\n'])

def missedCall : Remark :=
  ⟨"inline", .missed, "NoDefinition", "main", ⟨"a.c", 4, 3⟩, []⟩

end Cli

end CompilerRemarks
