/-
  CompilerRemarks.Proofs.Session.Course

  An analysis from its beginning to its end, in any world that holds a session
  (`Holder`). While it collects, others may ask for the session or cancel
  (`Interruption`); they can replace the range that it will answer for and
  nothing else that it depends on (`after_interruptions`). What it answers is
  told by how collecting ended and by the range asked for last (`Answers`), and
  however it ends it leaves the session free (`Concluded`). Serving a request
  with a compiler is such an analysis, in a world with files (`serve_concluded`).
-/
import CompilerRemarks.Session.Serve
import CompilerRemarks.Proofs.Process.Reports
import CompilerRemarks.Proofs.Session.Origin

namespace CompilerRemarks

/-- The remarks of a collection that came to its end. -/
def Collected.completed? : Collected → Option (List Remark)
  | .completed remarks => some remarks
  | .cancelled _ | .failed _ _ => none

namespace Session

/-! ## What the holder of the ticket can do -/

theorem holder?_of_running {s : Session} {r : Running} (hrun : s.running = some r) :
    s.holder? r.ticket = some r :=
  holder?_eq_some_iff.mpr ⟨hrun, rfl⟩

theorem complete_of_running {s : Session} {r : Running} (hrun : s.running = some r)
    (rs : List Remark) :
    s.complete r.ticket rs = (true, { s with cache := some ⟨r.file, rs⟩ }) := by
  rw [complete, holder?_of_running hrun]

theorem finish_of_running {s : Session} {r : Running} (hrun : s.running = some r)
    (cache : Option Cached) :
    { s with cache }.finish r.ticket = (some r.range, ⟨s.started, none, cache⟩) := by
  rw [finish, holder?_of_running (s := { s with cache }) hrun]

theorem finish_of_idle {s : Session} (hidle : s.running = none) (t : Ticket) :
    s.finish t = (none, s) := by
  rw [finish, holder?, hidle]
  rfl

/-- Storing remarks leaves the range that was asked for. -/
theorem finish_complete_range (s : Session) (t : Ticket) (rs : List Remark) :
    ((s.complete t rs).2.finish t).1 = (s.finish t).1 := by
  obtain ⟨r, hrun, rfl, heq⟩ | ⟨-, heq⟩ := s.complete_cases t rs
  · have hplain : s.finish r.ticket = _ := finish_of_running hrun s.cache
    rw [heq, finish_of_running hrun, hplain]
  · rw [heq]

end Session

namespace Analysis

open Session (Operation Event history after)

/-! ## Worlds -/

/-- A world that holds a session: what is put there is what is found there. -/
structure Holder (ω : Type) where
  session : ω → Session
  put : Session → ω → ω
  session_put : ∀ s w, session (put s w) = s

/-- The world that is a session and nothing else. -/
def Holder.self : Holder Session := ⟨id, fun s _ => s, fun _ _ => rfl⟩

/-- The world that an analysis is served in. -/
def Holder.scene (σ : Type) : Holder (Scene σ) :=
  ⟨Scene.session, fun s w => { w with session := s }, fun _ _ => rfl⟩

/-! ## Interruptions -/

/-- What others do to the session while an analysis collects. -/
inductive Interruption where
  | begin (file : Path) (range : Range)
  | cancel

namespace Interruption

/-- The operation of an interruption. -/
def operation : Interruption → Operation
  | .begin file range => .begin file range
  | .cancel => .cancel

/-- The range of a file that an interruption asks for. -/
def rangeOf? (f : Path) : Interruption → Option Range
  | .begin file range => if f.same file then some range else none
  | .cancel => none

end Interruption

/-- The range of the file that was asked for last. -/
def lastRange (q : Request) (meanwhile : List Interruption) : Range :=
  (meanwhile.filterMap (·.rangeOf? q.file)).getLast?.getD q.range

theorem lastRange_cons (f : Path) (range : Range) (i : Interruption) (rest : List Interruption) :
    lastRange ⟨f, range⟩ (i :: rest) = lastRange ⟨f, (i.rangeOf? f).getD range⟩ rest := by
  cases hi : i.rangeOf? f with
  | none => simp [lastRange, hi]
  | some asked => simp [lastRange, hi, List.getLast?_cons]

theorem perform_interruption {s : Session} {r : Running} (hrun : s.running = some r)
    (i : Interruption) :
    ∃ told, (s.perform i.operation).2 = { s with
      running := some ⟨r.ticket, r.file, (i.rangeOf? r.file).getD r.range, told⟩ } := by
  cases i with
  | begin file range =>
    cases hsame : r.file.same file with
    | true =>
      exact ⟨r.cancelled, by
        simp [Interruption.operation, Interruption.rangeOf?, Session.perform, Session.begin,
          hrun, hsame]⟩
    | false =>
      refine ⟨r.cancelled, ?_⟩
      have hs : { s with running := some r } = s := by rw [← hrun]
      simp [Interruption.operation, Interruption.rangeOf?, Session.perform, Session.begin,
        hrun, hsame, hs]
  | cancel =>
    exact ⟨true, by
      simp [Interruption.operation, Interruption.rangeOf?, Session.perform, Session.cancel, hrun]⟩

/-- Interruptions leave the running analysis in place, with the range that was
    asked for last. -/
theorem after_interruptions {s : Session} {r : Running} (hrun : s.running = some r)
    (meanwhile : List Interruption) :
    ∃ told, after s (meanwhile.map (·.operation)) = { s with
      running := some ⟨r.ticket, r.file, lastRange ⟨r.file, r.range⟩ meanwhile, told⟩ } := by
  induction meanwhile generalizing s r with
  | nil =>
    refine ⟨r.cancelled, ?_⟩
    show s = { s with running := some r }
    rw [← hrun]
  | cons i rest ih =>
    -- the range that the first interruption leaves is the default for the others
    obtain ⟨told, hi⟩ := perform_interruption hrun i
    obtain ⟨told', hrest⟩ := ih (s := (s.perform i.operation).2) (by rw [hi])
    refine ⟨told', ?_⟩
    show after (s.perform i.operation).2 (rest.map (·.operation)) = _
    rw [hrest, hi, lastRange_cons]

/-- Meanwhile another file is refused, and the refusal changes nothing. -/
theorem busy_meanwhile {s : Session} {r : Running} (hrun : s.running = some r)
    {meanwhile : List Interruption} {e : Event}
    (he : e ∈ history s (meanwhile.map (·.operation))) {g : Path} {range : Range}
    (hop : e.operation = .begin g range) (hother : r.file.same g = false) :
    e.response = .begun (.busy r.file) ∧ (e.before.perform e.operation).2 = e.before := by
  -- what came before the event were interruptions too, and the file is still running
  obtain ⟨earlier, later, hops, hbefore⟩ := Session.mem_history he
  obtain ⟨before, rest, -, rfl, -⟩ := List.map_eq_append_iff.mp hops
  obtain ⟨told, hafter⟩ := after_interruptions hrun before
  have hbusy : e.before.begin g range = (.busy r.file, e.before) := by
    rw [hbefore, hafter]
    simp [Session.begin, hother]
  rw [Event.response, hop, Session.perform, hbusy]
  exact ⟨rfl, rfl⟩

/-! ## Answers -/

/-- What a collection that ended in some way answers for a range. -/
inductive Answers (range : Range) : Collected → Answer → Prop where
  | remarks {rs : List Remark} {g : Grouped} :
      Remark.query rs range = .ok g → Answers range (.completed rs) (.remarks g)
  | incomplete {message : String} {rs : List Remark} {g : Grouped} : rs ≠ [] →
      Remark.query rs range = .ok g → Answers range (.failed message rs) (.incomplete g message)
  | failed {message : String} : Answers range (.failed message []) (.failed message)
  | cancelled {rs : List Remark} : Answers range (.cancelled rs) .cancelled
  /-- The query comes last, and may fail after all else succeeded. -/
  | inverted {rs : List Remark} : range.isInverted = true →
      Answers range (.completed rs) (.unanswerable (.inverted range))
  | incompleteInverted {message : String} {rs : List Remark} : rs ≠ [] →
      range.isInverted = true →
      Answers range (.failed message rs) (.unanswerable (.inverted range))

/-- A query fails on an inverted range, and on no other. -/
theorem query_cases (rs : List Remark) (range : Range) :
    (range.isInverted = true ∧ Remark.query rs range = .error (.inverted range)) ∨
      (range.isInverted = false ∧ ∃ g, Remark.query rs range = .ok g) := by
  cases hinv : range.isInverted with
  | true => exact Or.inl ⟨rfl, by simp [Remark.query, hinv]⟩
  | false => exact Or.inr ⟨rfl, by simp [Remark.query, hinv]⟩

/-- A collection has one answer for a range. -/
theorem Answers.unique {range : Range} {c : Collected} {a b : Answer} (ha : Answers range c a)
    (hb : Answers range c b) : a = b := by
  -- a query that answers and an inverted range exclude each other
  have hno : ∀ {rs g}, Remark.query rs range = .ok g → ¬ range.isInverted = true := by
    intro rs g hg hinv
    obtain ⟨-, herror⟩ | ⟨hvalid, -⟩ := query_cases rs range
    · cases hg.symm.trans herror
    · cases hinv.symm.trans hvalid
  cases ha with
  | remarks hg =>
    cases hb with
    | remarks hg' => rw [Except.ok.inj (hg.symm.trans hg')]
    | inverted hinv => exact absurd hinv (hno hg)
  | incomplete hne hg =>
    cases hb with
    | incomplete _ hg' => rw [Except.ok.inj (hg.symm.trans hg')]
    | failed => exact absurd rfl hne
    | incompleteInverted _ hinv => exact absurd hinv (hno hg)
  | failed =>
    cases hb with
    | incomplete hne _ => exact absurd rfl hne
    | failed => rfl
    | incompleteInverted hne _ => exact absurd rfl hne
  | cancelled => cases hb; rfl
  | inverted hinv =>
    cases hb with
    | remarks hg => exact absurd hinv (hno hg)
    | inverted _ => rfl
  | incompleteInverted hne hinv =>
    cases hb with
    | incomplete _ hg => exact absurd hinv (hno hg)
    | failed => exact absurd rfl hne
    | incompleteInverted _ _ => rfl

theorem answers_query (rs : List Remark) (range : Range) :
    Answers range (.completed rs) (answerQuery rs range none) := by
  obtain ⟨hinv, herror⟩ | ⟨-, g, hg⟩ := query_cases rs range
  · rw [answerQuery, herror]
    exact .inverted hinv
  · rw [answerQuery, hg]
    exact .remarks hg

theorem answers_query_incomplete {rs : List Remark} (hne : rs ≠ []) (message : String)
    (range : Range) : Answers range (.failed message rs) (answerQuery rs range (some message)) := by
  obtain ⟨hinv, herror⟩ | ⟨-, g, hg⟩ := query_cases rs range
  · rw [answerQuery, herror]
    exact .incompleteInverted hne hinv
  · rw [answerQuery, hg]
    exact .incomplete hne hg

/-! ## After collecting -/

/-- Whatever became of the session while it collected, an analysis ends with an
    answer from what was collected, for the range that its ticket stands for. -/
theorem finish_answers (q : Request) (c : Collected) (s : Session) (t : Ticket) :
    ∃ a, (finish q c (s, .running t)).2 = .done a ∧
      Answers ((s.finish t).1.getD q.range) c a := by
  cases c with
  | completed rs =>
    refine ⟨answerQuery rs ((s.finish t).1.getD q.range) none, ?_, answers_query rs _⟩
    rw [← s.finish_complete_range t rs]
    rfl
  | cancelled rs => exact ⟨.cancelled, rfl, .cancelled⟩
  | failed message rs =>
    cases rs with
    | nil => exact ⟨.failed message, rfl, .failed⟩
    | cons r rest => exact ⟨_, rfl, answers_query_incomplete (by simp) message _⟩

/-- An analysis that still holds its ticket releases the session, and caches
    what was collected to the end. -/
theorem finish_session {s : Session} {r : Running} (hrun : s.running = some r) (q : Request)
    (c : Collected) :
    (finish q c (s, .running r.ticket)).1 =
      { s with running := none, cache := (c.completed?.map (Cached.mk r.file)).or s.cache } := by
  have hfinish : s.finish r.ticket = (some r.range, ⟨s.started, none, s.cache⟩) :=
    Session.finish_of_running hrun s.cache
  -- the guard finishes once more, which does nothing
  have hagain : ∀ cache, (Session.mk s.started none cache).finish r.ticket =
      (none, ⟨s.started, none, cache⟩) := fun _ => Session.finish_of_idle rfl _
  cases c with
  | completed rs =>
    simp [finish, step, Phase.after, Session.complete_of_running hrun,
      Session.finish_of_running hrun, hagain, Collected.completed?]
  | cancelled rs => simp [finish, step, Phase.after, hfinish, Collected.completed?]
  | failed message rs =>
    cases rs with
    | nil => simp [finish, step, Phase.after, hfinish, Collected.completed?]
    | cons x rest => simp [finish, step, Phase.after, hfinish, hagain, Collected.completed?]

/-- What an analysis leaves that found the session free: an answer from what
    was collected, the session free again, and in the cache what was collected
    to the end and nothing else. -/
structure Concluded (q : Request) (range : Range) (c : Collected) (a : Option Answer)
    (s : Session) : Prop where
  answer : ∃ answer, a = some answer ∧ Answers range c answer
  free : s.running = none
  cached : s.cached? q.file = c.completed?
  others : ∀ f, q.file.same f = false → s.cached? f = none

theorem cached?_completed (n : Nat) (f g : Path) (c : Collected) :
    (Session.mk n none (c.completed?.map (Cached.mk f))).cached? g =
      if f.same g then c.completed? else none := by
  cases c.completed? with
  | none => simp [Session.cached?]
  | some rs => cases hsame : f.same g <;> simp [Session.cached?, Option.filter, hsame]

/-- An analysis that still holds its ticket is concluded for the range that the
    ticket stands for. -/
theorem finish_concluded (q : Request) (c : Collected) (n : Nat) (t : Ticket) (range : Range)
    (told : Bool) :
    let ended := finish q c (⟨n, some ⟨t, q.file, range, told⟩, none⟩, .running t)
    Concluded q range c ended.2.answer? ended.1 := by
  intro ended
  obtain ⟨a, hdone, hanswers⟩ := finish_answers q c ⟨n, some ⟨t, q.file, range, told⟩, none⟩ t
  have hrange := Session.finish_of_running (s := ⟨n, some ⟨t, q.file, range, told⟩, none⟩) rfl none
  have hsession : ended.1 = ⟨n, none, c.completed?.map (Cached.mk q.file)⟩ := by
    have hended := finish_session (s := ⟨n, some ⟨t, q.file, range, told⟩, none⟩) rfl q c
    rw [Option.or_none] at hended
    exact hended
  rw [hrange] at hanswers
  constructor
  case answer => exact ⟨a, by rw [hdone]; rfl, hanswers⟩
  case free => rw [hsession]
  case cached => rw [hsession, cached?_completed, if_pos (Path.same_refl q.file)]
  case others =>
    intro f hother
    rw [hsession, cached?_completed, hother]
    rfl

/-- The same analysis is running, perhaps for another range, and the same
    remarks are cached. -/
structure Untouched (s s' : Session) : Prop where
  ticket : s'.running.map (·.ticket) = s.running.map (·.ticket)
  file : s'.runningFile? = s.runningFile?
  cache : s'.cache = s.cache

theorem Untouched.refl (s : Session) : Untouched s s :=
  ⟨rfl, rfl, rfl⟩

theorem untouched_range {s : Session} {r : Running} (hrun : s.running = some r) (range : Range) :
    Untouched s { s with running := some { r with range } } where
  ticket := by rw [hrun]; rfl
  file := by rw [Session.runningFile?, Session.runningFile?, hrun]; rfl
  cache := rfl

/-! ## The whole course -/

section Run

variable {ω : Type} (H : Holder ω) {q : Request} (collect : Ticket → ω → Collected × ω) {w : ω}

theorem run_inverted (h : q.range.isInverted = true) :
    run q H.session H.put collect w =
      (some (.unanswerable (.inverted q.range)), H.put (H.session w) w) := by
  simp [run, step, h, Phase.answer?]

theorem run_cached (hvalid : q.range.isInverted = false) {rs : List Remark}
    (hcached : (H.session w).cached? q.file = some rs) :
    run q H.session H.put collect w =
      (some (answerQuery rs q.range none), H.put (H.session w) w) := by
  simp [run, step, hvalid, hcached, Phase.answer?]

theorem run_rangeUpdated (hvalid : q.range.isInverted = false)
    (hcold : (H.session w).cached? q.file = none) {r : Running}
    (hrun : (H.session w).running = some r) (hsame : r.file.same q.file = true) :
    run q H.session H.put collect w = (some .rangeUpdated,
      H.put { H.session w with running := some { r with range := q.range } } w) := by
  simp [run, step, hvalid, hcold, Session.begin, hrun, hsame, Phase.answer?]

theorem run_busy (hvalid : q.range.isInverted = false)
    (hcold : (H.session w).cached? q.file = none) {r : Running}
    (hrun : (H.session w).running = some r) (hother : r.file.same q.file = false) :
    run q H.session H.put collect w = (some (.busy r.file), H.put (H.session w) w) := by
  simp [run, step, hvalid, hcold, Session.begin, hrun, hother, Phase.answer?]

theorem run_started (hvalid : q.range.isInverted = false)
    (hcold : (H.session w).cached? q.file = none) (hidle : (H.session w).running = none) :
    let t : Ticket := ⟨(H.session w).started + 1⟩
    let collected := collect t (H.put ((H.session w).begin q.file q.range).2 w)
    let ended := finish q collected.1 (H.session collected.2, .running t)
    run q H.session H.put collect w = (ended.2.answer?, H.put ended.1 collected.2) := by
  simp [run, step, hvalid, hcold, Session.begin, hidle]

/-- An analysis that has to collect is concluded for the range that was asked
    for last meanwhile. -/
theorem run_concluded (hvalid : q.range.isInverted = false)
    (hcold : (H.session w).cached? q.file = none) (hidle : (H.session w).running = none)
    (meanwhile : List Interruption) :
    let begun := ((H.session w).begin q.file q.range).2
    let collected := collect ⟨(H.session w).started + 1⟩ (H.put begun w)
    let result := run q H.session H.put collect w
    H.session collected.2 = after begun (meanwhile.map (·.operation)) →
    Concluded q (lastRange q meanwhile) collected.1 result.1 (H.session result.2) := by
  intro begun collected result hmeanwhile
  -- a cache of another file goes when the analysis begins
  have hcache : Session.keepCacheOf q.file (H.session w).cache = none :=
    Option.map_eq_none_iff.mp hcold
  have hbegun : begun = ⟨(H.session w).started + 1,
      some ⟨⟨(H.session w).started + 1⟩, q.file, q.range, false⟩, none⟩ := by
    simp only [begun, Session.begin, hidle, hcache]
  obtain ⟨told, hafter⟩ := after_interruptions (s := begun) (by rw [hbegun]) meanwhile
  rw [hafter, hbegun] at hmeanwhile
  have hresult : result = _ := run_started H collect hvalid hcold hidle
  rw [hresult, H.session_put]
  show Concluded q _ collected.1 (finish q collected.1 (H.session collected.2, _)).2.answer?
    (finish q collected.1 (H.session collected.2, _)).1
  rw [hmeanwhile]
  exact finish_concluded q collected.1 _ _ _ told

/-- An analysis that has to collect gives an answer from what it collected, so
    it is neither refused nor left to another one. -/
theorem run_started_answer (hvalid : q.range.isInverted = false)
    (hcold : (H.session w).cached? q.file = none) (hidle : (H.session w).running = none) :
    ∃ a range c, (run q H.session H.put collect w).1 = some a ∧ Answers range c a := by
  rw [run_started H collect hvalid hcold hidle]
  obtain ⟨a, hdone, hanswers⟩ := finish_answers q _ _ _
  exact ⟨a, _, _, by rw [hdone]; rfl, hanswers⟩

/-- A request that is not served leaves everything but a range as it was. -/
theorem run_untouched (h : q.range.isInverted = true ∨
      (run q H.session H.put collect w).1 = some .rangeUpdated ∨
      ∃ f, (run q H.session H.put collect w).1 = some (.busy f)) :
    Untouched (H.session w) (H.session (run q H.session H.put collect w).2) := by
  cases hinv : q.range.isInverted with
  | true =>
    rw [run_inverted H collect hinv, H.session_put]
    exact .refl _
  | false =>
    cases hcached : (H.session w).cached? q.file with
    | some rs =>
      rw [run_cached H collect hinv hcached, H.session_put]
      exact .refl _
    | none =>
      cases hrun : (H.session w).running with
      | some r =>
        cases hsame : r.file.same q.file with
        | true =>
          rw [run_rangeUpdated H collect hinv hcached hrun hsame, H.session_put]
          exact untouched_range hrun q.range
        | false =>
          rw [run_busy H collect hinv hcached hrun hsame, H.session_put]
          exact .refl _
      | none =>
        -- what was collected is never answered by a refusal
        obtain ⟨a, range, c, ha, hanswers⟩ := run_started_answer H collect hinv hcached hrun
        rw [ha] at h
        rcases h with hinv' | hupdated | ⟨f, hbusy⟩
        · cases hinv.symm.trans hinv'
        · cases hupdated
          cases hanswers
        · cases hbusy
          cases hanswers

/-- An analysis of a valid range that finds the session free and nothing cached
    is concluded: for the range of its file that was asked for last while it
    collected. Meanwhile any other file is refused, which changes nothing. An
    inverted range, a refusal and a range that is left to another analysis leave
    the session as it was but for the range. -/
theorem analysis_course (q : Request) (w : ω) :
    let s := H.session w
    let begun := (s.begin q.file q.range).2
    let collected := collect ⟨s.started + 1⟩ (H.put begun w)
    let result := run q H.session H.put collect w
    (∀ meanwhile : List Interruption, s.running = none → s.cached? q.file = none →
      q.range.isInverted = false →
      H.session collected.2 = after begun (meanwhile.map (·.operation)) →
      Concluded q (lastRange q meanwhile) collected.1 result.1 (H.session result.2) ∧
      ∀ e ∈ history begun (meanwhile.map (·.operation)), ∀ g range,
        e.operation = .begin g range → q.file.same g = false →
        e.response = .begun (.busy q.file) ∧ (e.before.perform e.operation).2 = e.before) ∧
    (q.range.isInverted = true → result.1 = some (.unanswerable (.inverted q.range))) ∧
    (q.range.isInverted = true ∨ result.1 = some .rangeUpdated ∨
        (∃ f, result.1 = some (.busy f)) →
      Untouched s (H.session result.2)) := by
  intro s begun collected result
  refine ⟨?_, ?_, run_untouched H collect⟩
  · intro meanwhile hidle hcold hvalid hmeanwhile
    refine ⟨run_concluded H collect hvalid hcold hidle meanwhile hmeanwhile, ?_⟩
    intro e he g range hop hother
    have hrun : begun.running = some ⟨⟨s.started + 1⟩, q.file, q.range, false⟩ := by
      simp only [begun, Session.begin, hidle]
    exact busy_meanwhile hrun he hop hother
  · intro hinv
    simp only [result, run_inverted H collect hinv]

end Run

/-- While `a.c` is analysed others ask for `b.c` and for another range of
    `a.c`, and cancel too late; and an inverted range is refused. -/
theorem analysis_course_interrupted :
    let a : Path := ⟨"a.c"⟩
    let b : Path := ⟨"b.c"⟩
    let q : Request := ⟨a, .lines 1 9⟩
    let meanwhile : List Interruption := [.begin b (.lines 1 1), .begin a (.lines 3 4), .cancel]
    let collect := fun (_ : Ticket) (s : Session) =>
      (Collected.completed [], after s (meanwhile.map (·.operation)))
    let begun := (Session.new.begin a (.lines 1 9)).2
    let result := run q Holder.self.session Holder.self.put collect .new
    let refused := run ⟨a, .lines 9 1⟩ Holder.self.session Holder.self.put collect .new
    Concluded q (.lines 3 4) (.completed []) result.1 result.2 ∧
      (begun.perform (.begin b (.lines 1 1))).1 = .begun (.busy a) ∧ Untouched .new refused.2 := by
  intro a b q meanwhile collect begun result refused
  have hvalid : q.range.isInverted = false := by decide
  have hinverted : (Range.lines 9 1).isInverted = true := by decide
  have hlast : lastRange q meanwhile = .lines 3 4 := by decide
  obtain ⟨hserved, -, -⟩ := analysis_course Holder.self collect q .new
  obtain ⟨-, -, huntouched⟩ := analysis_course Holder.self collect ⟨a, .lines 9 1⟩ .new
  obtain ⟨hconcluded, hbusy⟩ := hserved meanwhile rfl rfl hvalid rfl
  rw [hlast] at hconcluded
  have hfirst := hbusy ⟨begun, .begin b (.lines 1 1)⟩ List.mem_cons_self b (.lines 1 1) rfl
    (by decide)
  exact ⟨hconcluded, hfirst.1, huntouched (Or.inl hinverted)⟩

/-! ## Serving -/

section Serve

variable {σ : Type}

/-- What those who are told of complaints do to the session are interruptions. -/
def OnlyInterrupts (report : Session × σ → String → Session × σ) : Prop :=
  ∀ s x line, ∃ meanwhile : List Interruption,
    (report (s, x) line).1 = after s (meanwhile.map (·.operation))

theorem OnlyInterrupts.foldl {report : Session × σ → String → Session × σ}
    (h : OnlyInterrupts report) (lines : List String) (s : Session) (x : σ) :
    ∃ meanwhile : List Interruption,
      (lines.foldl report (s, x)).1 = after s (meanwhile.map (·.operation)) := by
  induction lines generalizing s x with
  | nil => exact ⟨[], rfl⟩
  | cons line rest ih =>
    obtain ⟨meanwhile, hline⟩ := h s x line
    obtain ⟨later, hrest⟩ := ih (report (s, x) line).1 (report (s, x) line).2
    refine ⟨meanwhile ++ later, ?_⟩
    rw [List.map_append, Session.after_append, ← hline]
    exact hrest

/-- Serving a request on a free session with nothing cached collects the
    remarks of the command and is concluded, for the range that was asked for
    last by those who were told of complaints. -/
theorem serve_concluded {report : Session × σ → String → Session × σ}
    (hreport : OnlyInterrupts report) (settings : Settings) (c : Command) (range : Range)
    (scene : Scene σ) (hvalid : range.isInverted = false)
    (hcold : scene.session.cached? c.file = none) (hidle : scene.session.running = none) :
    let begun := (scene.session.begin c.file range).2
    let produced := Producer.produce settings scene.files scene.latch c
      (observerOf report ⟨scene.session.started + 1⟩) (begun, scene.observer)
    let served := serve settings c range report scene
    ∃ meanwhile : List Interruption,
      produced.observer.1 = after begun (meanwhile.map (·.operation)) ∧
      Concluded ⟨c.file, range⟩ (lastRange ⟨c.file, range⟩ meanwhile) produced.collected
        served.1 served.2.session := by
  intro begun produced served
  obtain ⟨lines, hlines⟩ := Producer.produce_told settings scene.files scene.latch c
    (observerOf report ⟨scene.session.started + 1⟩) (begun, scene.observer)
  obtain ⟨meanwhile, hmeanwhile⟩ := hreport.foldl lines begun scene.observer
  have hobserver : produced.observer.1 = after begun (meanwhile.map (·.operation)) :=
    (congrArg Prod.fst hlines).trans hmeanwhile
  exact ⟨meanwhile, hobserver, run_concluded (Holder.scene σ)
    (collectAlong Producer.eventsOf settings c report)
    (q := ⟨c.file, range⟩) (w := scene) hvalid hcold hidle meanwhile hobserver⟩

end Serve

end Analysis

end CompilerRemarks
