/-
  CompilerRemarks.Proofs.Session.History

  A session told from its history. `history` lists the operations of a run,
  each with the session before it. What is cached for a file at the end of a
  run is what was stored for it last, unless something outdated it since
  (`cached?_after_iff`); tickets count the starts, so none is given twice
  (`startedTickets_history`); and a cache belongs to the file being analysed
  (`CacheFits`).
-/
import CompilerRemarks.Session.Basic

namespace CompilerRemarks.Session

/-! ## Operations -/

/-- An operation on a session, with its arguments. -/
inductive Operation where
  | begin (file : Path) (range : Range)
  | token (t : Ticket)
  | cached (file : Path)
  | complete (t : Ticket) (remarks : List Remark)
  | finish (t : Ticket)
  | cancel
  | save (saved : Path) (active : Option Path)

/-- What an operation answers. -/
inductive Response where
  | begun (b : Begin)
  | token (cancelled : Option Bool)
  | cached (remarks : Option (List Remark))
  | stored (done : Bool)
  | finished (range : Option Range)
  | cancelled (done : Bool)
  | dropped (done : Bool)

/-- Performs an operation. -/
def perform (s : Session) : Operation → Response × Session
  | .begin file range => (.begun (s.begin file range).1, (s.begin file range).2)
  | .token t => (.token (s.token? t), s)
  | .cached file => (.cached (s.cached? file), s)
  | .complete t remarks => (.stored (s.complete t remarks).1, (s.complete t remarks).2)
  | .finish t => (.finished (s.finish t).1, (s.finish t).2)
  | .cancel => (.cancelled s.cancel.1, s.cancel.2)
  | .save saved active => (.dropped (s.save saved active).1, (s.save saved active).2)

/-- Answers that refuse what was asked for. -/
def Response.Refuses : Response → Prop
  | .begun (.busy _) => True
  | .stored false => True
  | .finished none => True
  | .dropped false => True
  | _ => False

/-- An operation of a run with the session that it meets. -/
structure Event where
  before : Session
  operation : Operation

/-- What the operation of an event answers. -/
def Event.response (e : Event) : Response :=
  (e.before.perform e.operation).1

/-- The session after some operations. -/
def after (s : Session) (ops : List Operation) : Session :=
  ops.foldl (fun s op => (s.perform op).2) s

/-- The events of a run. -/
def history (s : Session) : List Operation → List Event
  | [] => []
  | op :: rest => ⟨s, op⟩ :: history (s.perform op).2 rest

/-! ## What an operation can do -/

theorem holder?_eq_some_iff {s : Session} {t : Ticket} {r : Running} :
    s.holder? t = some r ↔ s.running = some r ∧ r.ticket = t := by
  rw [holder?, Option.filter_eq_some_iff, beq_iff_eq]

theorem begin_cases (s : Session) (file : Path) (range : Range) :
    (∃ r, s.running = some r ∧ r.file.same file = true ∧
      s.begin file range = (.rangeUpdated, { s with running := some { r with range } })) ∨
    (∃ r, s.running = some r ∧ r.file.same file = false ∧
      s.begin file range = (.busy r.file, s)) ∨
    (s.running = none ∧ s.begin file range =
      (.started ⟨s.started + 1⟩, ⟨s.started + 1, some ⟨⟨s.started + 1⟩, file, range, false⟩,
        keepCacheOf file s.cache⟩)) := by
  cases hrun : s.running with
  | none => exact Or.inr (Or.inr ⟨rfl, by rw [begin, hrun]⟩)
  | some r =>
    cases hsame : r.file.same file with
    | true => exact Or.inl ⟨r, rfl, hsame, by rw [begin, hrun]; simp only [hsame, if_true]⟩
    | false => exact Or.inr (Or.inl ⟨r, rfl, hsame, by rw [begin, hrun]; simp [hsame]⟩)

theorem complete_cases (s : Session) (t : Ticket) (remarks : List Remark) :
    (∃ r, s.running = some r ∧ r.ticket = t ∧
      s.complete t remarks = (true, { s with cache := some ⟨r.file, remarks⟩ })) ∨
    (s.holder? t = none ∧ s.complete t remarks = (false, s)) := by
  cases hold : s.holder? t with
  | none => exact Or.inr ⟨rfl, by rw [complete, hold]⟩
  | some r =>
    obtain ⟨hrun, ht⟩ := holder?_eq_some_iff.mp hold
    exact Or.inl ⟨r, hrun, ht, by rw [complete, hold]⟩

theorem finish_cases (s : Session) (t : Ticket) :
    (∃ r, s.running = some r ∧ r.ticket = t ∧
      s.finish t = (some r.range, { s with running := none })) ∨
    (s.holder? t = none ∧ s.finish t = (none, s)) := by
  cases hold : s.holder? t with
  | none => exact Or.inr ⟨rfl, by rw [finish, hold]⟩
  | some r =>
    obtain ⟨hrun, ht⟩ := holder?_eq_some_iff.mp hold
    exact Or.inl ⟨r, hrun, ht, by rw [finish, hold]⟩

theorem cancel_cases (s : Session) :
    (∃ r, s.running = some r ∧
      s.cancel = (true, { s with running := some { r with cancelled := true } })) ∨
    (s.running = none ∧ s.cancel = (false, s)) := by
  cases hrun : s.running with
  | none => exact Or.inr ⟨rfl, by rw [cancel, hrun]⟩
  | some r => exact Or.inl ⟨r, rfl, by rw [cancel, hrun]⟩

theorem save_cases (s : Session) (saved : Path) (active : Option Path) :
    (active.any (·.same saved) = true ∧ (s.cached? saved).isSome = true ∧
      s.save saved active = (true, { s with cache := none })) ∨
    ((active.any (·.same saved) = false ∨ s.cached? saved = none) ∧
      s.save saved active = (false, s)) := by
  cases hactive : active.any (·.same saved) with
  | false => exact Or.inr ⟨Or.inl rfl, by rw [save, hactive]; rfl⟩
  | true =>
    cases hcached : s.cached? saved with
    | none => exact Or.inr ⟨Or.inr rfl, by rw [save, hactive, hcached]; rfl⟩
    | some rs => exact Or.inl ⟨rfl, rfl, by rw [save, hactive, hcached]; rfl⟩

/-- An operation that is refused leaves the session as it is. -/
theorem perform_of_refuses {s : Session} {op : Operation} (h : (s.perform op).1.Refuses) :
    (s.perform op).2 = s := by
  cases op with
  | begin file range =>
    obtain ⟨r, -, -, heq⟩ | ⟨r, -, -, heq⟩ | ⟨-, heq⟩ := begin_cases s file range
    · simp [perform, heq, Response.Refuses] at h
    · simp [perform, heq]
    · simp [perform, heq, Response.Refuses] at h
  | token t => rfl
  | cached file => rfl
  | complete t remarks =>
    obtain ⟨r, -, -, heq⟩ | ⟨-, heq⟩ := complete_cases s t remarks
    · simp [perform, heq, Response.Refuses] at h
    · simp [perform, heq]
  | finish t =>
    obtain ⟨r, -, -, heq⟩ | ⟨-, heq⟩ := finish_cases s t
    · simp [perform, heq, Response.Refuses] at h
    · simp [perform, heq]
  | cancel => simp [perform, Response.Refuses] at h
  | save saved active =>
    obtain ⟨-, -, heq⟩ | ⟨-, heq⟩ := save_cases s saved active
    · simp [perform, heq, Response.Refuses] at h
    · simp [perform, heq]

/-! ## The cache -/

theorem cached?_eq_some_iff {s : Session} {f : Path} {rs : List Remark} :
    s.cached? f = some rs ↔ ∃ c, s.cache = some c ∧ c.file.same f = true ∧ c.remarks = rs := by
  rw [cached?, Option.map_eq_some_iff]
  constructor
  · rintro ⟨c, hc, rfl⟩
    obtain ⟨hcache, hsame⟩ := Option.filter_eq_some_iff.mp hc
    exact ⟨c, hcache, hsame, rfl⟩
  · rintro ⟨c, hcache, hsame, rfl⟩
    exact ⟨c, Option.filter_eq_some_iff.mpr ⟨hcache, hsame⟩, rfl⟩

/-- An event stores remarks for a file if it completes an analysis of it. -/
def Event.Stores (f : Path) (rs : List Remark) (e : Event) : Prop :=
  ∃ t, e.operation = .complete t rs ∧ e.response = .stored true ∧
    e.before.runningFile?.any (·.same f) = true

/-- An event outdates the remarks of a file if it stores remarks, starts an
    analysis of another file, or saves the file while it is active. -/
def Event.Outdates (f : Path) (e : Event) : Prop :=
  match e.operation, e.response with
  -- the cache has room for one file
  | .complete _ _, .stored done => done = true
  | .begin g _, .begun (.started _) => g.same f = false
  | .save saved active, _ => saved.same f = true ∧ active.any (·.same saved) = true
  | _, _ => False

theorem cached?_some (n : Nat) (running : Option Running) (file f : Path)
    (remarks rs : List Remark) :
    (⟨n, running, some ⟨file, remarks⟩⟩ : Session).cached? f = some rs ↔
      file.same f = true ∧ remarks = rs := by
  rw [cached?_eq_some_iff]
  constructor
  · rintro ⟨c, hc, hsame, hrs⟩
    cases hc
    exact ⟨hsame, hrs⟩
  · rintro ⟨hsame, hrs⟩
    exact ⟨_, rfl, hsame, hrs⟩

/-- Starting an analysis keeps the remarks of its own file only. -/
theorem cached?_keepCacheOf (s : Session) (n : Nat) (running : Option Running) (file f : Path)
    (rs : List Remark) :
    (⟨n, running, keepCacheOf file s.cache⟩ : Session).cached? f = some rs ↔
      s.cached? f = some rs ∧ file.same f = true := by
  simp only [cached?_eq_some_iff, keepCacheOf, Option.filter_eq_some_iff]
  constructor
  · rintro ⟨c, ⟨hcache, hfile⟩, hf, hrs⟩
    exact ⟨⟨c, hcache, hf, hrs⟩, by rw [← Path.same_congr hfile]; exact hf⟩
  · rintro ⟨⟨c, hcache, hf, hrs⟩, hfile⟩
    exact ⟨c, ⟨hcache, by rw [Path.same_congr_right hfile]; exact hf⟩, hf, hrs⟩

/-- A save while the file is active drops its remarks and those of no other. -/
theorem cached?_save (s : Session) (saved f : Path) (active : Option Path) (rs : List Remark) :
    (s.save saved active).2.cached? f = some rs ↔
      s.cached? f = some rs ∧ ¬ (saved.same f = true ∧ active.any (·.same saved) = true) := by
  have hsame : saved.same f = true → s.cached? saved = s.cached? f := by
    intro h
    simp only [cached?, Path.same_congr_right h]
  obtain ⟨hactive, hsome, heq⟩ | ⟨hkept, heq⟩ := save_cases s saved active
  · -- the cache goes; had it held remarks of `f`, then `saved` would be `f`
    have hnone : ({ s with cache := none } : Session).cached? f = none := rfl
    rw [heq, hnone]
    refine ⟨fun h => absurd h (by simp), ?_⟩
    rintro ⟨hf, hnot⟩
    obtain ⟨rs', hsaved⟩ := Option.isSome_iff_exists.mp hsome
    obtain ⟨c, hcache, hcf, -⟩ := cached?_eq_some_iff.mp hf
    obtain ⟨c', hcache', hcs, -⟩ := cached?_eq_some_iff.mp hsaved
    obtain rfl : c = c' := Option.some.inj (hcache.symm.trans hcache')
    exact absurd ⟨by rw [← Path.same_congr hcs]; exact hcf, hactive⟩ hnot
  · rw [heq]
    refine ⟨fun hf => ⟨hf, ?_⟩, And.left⟩
    rintro ⟨hsf, hactive⟩
    rcases hkept with hinactive | hnone
    · exact absurd (hactive.symm.trans hinactive) (by decide)
    · rw [hsame hsf, hf] at hnone
      exact absurd hnone (by simp)

/-- One operation leaves cached for a file what it stores, or what was cached
    before and is not outdated by it. -/
theorem cached?_perform_iff (s : Session) (op : Operation) (f : Path) (rs : List Remark) :
    (s.perform op).2.cached? f = some rs ↔
      Event.Stores f rs ⟨s, op⟩ ∨ (s.cached? f = some rs ∧ ¬ Event.Outdates f ⟨s, op⟩) := by
  cases op with
  | begin file range =>
    obtain ⟨r, -, -, heq⟩ | ⟨r, -, -, heq⟩ | ⟨-, heq⟩ := begin_cases s file range
    · simp [perform, Event.Stores, Event.Outdates, Event.response, heq, cached?]
    · simp [perform, Event.Stores, Event.Outdates, Event.response, heq]
    -- only a start looks at the cache
    · simp [perform, Event.Stores, Event.Outdates, Event.response, heq, cached?_keepCacheOf]
  | token t => simp [perform, Event.Stores, Event.Outdates]
  | cached file => simp [perform, Event.Stores, Event.Outdates]
  | complete t remarks =>
    obtain ⟨r, hrun, -, heq⟩ | ⟨-, heq⟩ := complete_cases s t remarks
    · simp [perform, Event.Stores, Event.Outdates, Event.response, heq, cached?_some, hrun,
        runningFile?, and_comm]
    · simp [perform, Event.Stores, Event.Outdates, Event.response, heq]
  | finish t =>
    obtain ⟨r, -, -, heq⟩ | ⟨-, heq⟩ := finish_cases s t <;>
      simp [perform, Event.Stores, Event.Outdates, heq, cached?]
  | cancel =>
    obtain ⟨r, -, heq⟩ | ⟨-, heq⟩ := cancel_cases s <;>
      simp [perform, Event.Stores, Event.Outdates, heq, cached?]
  | save saved active =>
    simp [perform, Event.Stores, Event.Outdates, cached?_save]

/-- Some event stores remarks for a file, and no later one outdates them. -/
def StoredLast (f : Path) (rs : List Remark) (events : List Event) : Prop :=
  ∃ earlier e later, events = earlier ++ e :: later ∧ e.Stores f rs ∧
    ∀ x ∈ later, ¬ x.Outdates f

theorem storedLast_cons {f : Path} {rs : List Remark} {e : Event} {events : List Event} :
    StoredLast f rs (e :: events) ↔
      StoredLast f rs events ∨ (e.Stores f rs ∧ ∀ x ∈ events, ¬ x.Outdates f) := by
  constructor
  · rintro ⟨earlier, e', later, heq, hstores, hlater⟩
    cases earlier with
    | nil =>
      cases heq
      exact Or.inr ⟨hstores, hlater⟩
    | cons _ earlier =>
      cases heq
      exact Or.inl ⟨earlier, e', later, rfl, hstores, hlater⟩
  · rintro (⟨earlier, e', later, rfl, hstores, hlater⟩ | ⟨hstores, hlater⟩)
    · exact ⟨e :: earlier, e', later, rfl, hstores, hlater⟩
    · exact ⟨[], e, events, rfl, hstores, hlater⟩

/-- What is cached for a file after a run is what was stored for it last, or
    what was cached before, unless it was outdated since. -/
theorem cached?_after_iff (s : Session) (ops : List Operation) (f : Path) (rs : List Remark) :
    (after s ops).cached? f = some rs ↔
      StoredLast f rs (history s ops) ∨
        (s.cached? f = some rs ∧ ∀ x ∈ history s ops, ¬ x.Outdates f) := by
  induction ops generalizing s with
  | nil => simp [after, history, StoredLast]
  | cons op rest ih =>
    have hafter : after s (op :: rest) = after (s.perform op).2 rest := rfl
    rw [hafter, ih, cached?_perform_iff, history, storedLast_cons, List.forall_mem_cons]
    constructor
    · rintro (hlast | ⟨hstores | ⟨hcached, hout⟩, hrest⟩)
      · exact Or.inl (Or.inl hlast)
      · exact Or.inl (Or.inr ⟨hstores, hrest⟩)
      · exact Or.inr ⟨hcached, hout, hrest⟩
    · rintro ((hlast | ⟨hstores, hrest⟩) | ⟨hcached, hout, hrest⟩)
      · exact Or.inl hlast
      · exact Or.inr ⟨Or.inl hstores, hrest⟩
      · exact Or.inr ⟨Or.inr ⟨hcached, hout⟩, hrest⟩

/-- A cache that is present while a file is analysed belongs to that file. -/
def CacheFits (s : Session) : Prop :=
  ∀ r c, s.running = some r → s.cache = some c → c.file.same r.file = true

theorem cacheFits_perform {s : Session} (h : CacheFits s) (op : Operation) :
    CacheFits (s.perform op).2 := by
  cases op with
  | begin file range =>
    obtain ⟨r, hrun, -, heq⟩ | ⟨r, -, -, heq⟩ | ⟨-, heq⟩ := begin_cases s file range
    · rintro r' c hrun' hcache
      rw [perform, heq] at hrun' hcache
      cases hrun'
      exact h r c hrun hcache
    · rw [perform, heq]
      exact h
    · rintro r' c hrun' hcache
      rw [perform, heq] at hrun' hcache
      cases hrun'
      exact (Option.filter_eq_some_iff.mp hcache).2
  | token t => exact h
  | cached file => exact h
  | complete t remarks =>
    obtain ⟨r, hrun, -, heq⟩ | ⟨-, heq⟩ := complete_cases s t remarks
    -- remarks are stored under the file being analysed
    · rintro r' c hrun' hcache
      rw [perform, heq] at hrun' hcache
      cases hcache
      rw [Option.some.inj (hrun.symm.trans hrun')]
      exact Path.same_refl r'.file
    · rw [perform, heq]
      exact h
  | finish t =>
    obtain ⟨r, -, -, heq⟩ | ⟨-, heq⟩ := finish_cases s t
    · rintro r' c hrun' hcache
      rw [perform, heq] at hrun'
      cases hrun'
    · rw [perform, heq]
      exact h
  | cancel =>
    obtain ⟨r, hrun, heq⟩ | ⟨-, heq⟩ := cancel_cases s
    · rintro r' c hrun' hcache
      rw [perform, heq] at hrun' hcache
      cases hrun'
      exact h r c hrun hcache
    · rw [perform, heq]
      exact h
  | save saved active =>
    obtain ⟨-, -, heq⟩ | ⟨-, heq⟩ := save_cases s saved active
    · rintro r' c hrun' hcache
      rw [perform, heq] at hcache
      cases hcache
    · rw [perform, heq]
      exact h

theorem cacheFits_after {s : Session} (h : CacheFits s) (ops : List Operation) :
    CacheFits (after s ops) := by
  induction ops generalizing s with
  | nil => exact h
  | cons op rest ih => exact ih (cacheFits_perform h op)

/-! ## Tickets -/

/-- The ticket that an event hands out. -/
def Event.startedTicket? (e : Event) : Option Ticket :=
  match e.response with
  | .begun (.started t) => some t
  | _ => none

/-- The tickets handed out in some events, in order. -/
def startedTickets (events : List Event) : List Ticket :=
  events.filterMap Event.startedTicket?

/-- An operation hands out the next ticket and counts it, or hands out none. -/
theorem startedTicket?_cases (s : Session) (op : Operation) :
    (Event.startedTicket? ⟨s, op⟩ = some ⟨s.started + 1⟩ ∧
      (s.perform op).2.started = s.started + 1) ∨
    (Event.startedTicket? ⟨s, op⟩ = none ∧ (s.perform op).2.started = s.started) := by
  cases op with
  | begin file range =>
    obtain ⟨r, -, -, heq⟩ | ⟨r, -, -, heq⟩ | ⟨-, heq⟩ := begin_cases s file range
    · exact Or.inr (by simp [Event.startedTicket?, Event.response, perform, heq])
    · exact Or.inr (by simp [Event.startedTicket?, Event.response, perform, heq])
    · exact Or.inl (by simp [Event.startedTicket?, Event.response, perform, heq])
  | token t => exact Or.inr ⟨rfl, rfl⟩
  | cached file => exact Or.inr ⟨rfl, rfl⟩
  | complete t remarks =>
    obtain ⟨r, -, -, heq⟩ | ⟨-, heq⟩ := complete_cases s t remarks <;>
      exact Or.inr ⟨rfl, by rw [perform, heq]⟩
  | finish t =>
    obtain ⟨r, -, -, heq⟩ | ⟨-, heq⟩ := finish_cases s t <;>
      exact Or.inr ⟨rfl, by rw [perform, heq]⟩
  | cancel =>
    obtain ⟨r, -, heq⟩ | ⟨-, heq⟩ := cancel_cases s <;>
      exact Or.inr ⟨rfl, by rw [perform, heq]⟩
  | save saved active =>
    obtain ⟨-, -, heq⟩ | ⟨-, heq⟩ := save_cases s saved active <;>
      exact Or.inr ⟨rfl, by rw [perform, heq]⟩

/-- The tickets of a run are numbered in the order of the starts. -/
theorem startedTickets_history (s : Session) (ops : List Operation) :
    ∃ n, (after s ops).started = s.started + n ∧
      startedTickets (history s ops) = (List.range' (s.started + 1) n).map Ticket.mk := by
  induction ops generalizing s with
  | nil => exact ⟨0, rfl, rfl⟩
  | cons op rest ih =>
    obtain ⟨n, hcount, htickets⟩ := ih (s.perform op).2
    have hafter : after s (op :: rest) = after (s.perform op).2 rest := rfl
    have hsplit : startedTickets (history s (op :: rest)) =
        (Event.startedTicket? ⟨s, op⟩).toList ++
          startedTickets (history (s.perform op).2 rest) := by
      rw [history, startedTickets, List.filterMap_cons]
      cases Event.startedTicket? ⟨s, op⟩ <;> rfl
    -- the numbers of the rest go on from what this operation leaves
    rcases startedTicket?_cases s op with ⟨hticket, hstarted⟩ | ⟨hticket, hstarted⟩
    · refine ⟨n + 1, ?_, ?_⟩
      · rw [hafter, hcount, hstarted]
        omega
      · rw [hsplit, hticket, htickets, hstarted, List.range'_succ]
        rfl
    · refine ⟨n, ?_, ?_⟩
      · rw [hafter, hcount, hstarted]
      · rw [hsplit, hticket, htickets, hstarted]
        rfl

/-! ## The ticket in flight -/

/-- The running analysis has this ticket. -/
def InFlight (s : Session) (t : Ticket) : Prop :=
  ∃ r, s.running = some r ∧ r.ticket = t

theorem holder?_eq_none_iff {s : Session} {t : Ticket} : s.holder? t = none ↔ ¬ s.InFlight t := by
  cases hold : s.holder? t with
  | none =>
    refine ⟨fun _ => ?_, fun _ => rfl⟩
    rintro ⟨r, hr⟩
    rw [holder?_eq_some_iff.mpr hr] at hold
    exact absurd hold (by simp)
  | some r =>
    have hfly : s.InFlight t := ⟨r, holder?_eq_some_iff.mp hold⟩
    exact ⟨fun h => absurd h (by simp), fun h => absurd hfly h⟩

/-- A ticket is in flight after an operation if the operation hands it out, or
    if it was in flight and the operation does not finish it. -/
theorem inFlight_perform_iff (s : Session) (op : Operation) (u : Ticket) :
    (s.perform op).2.InFlight u ↔
      Event.startedTicket? ⟨s, op⟩ = some u ∨ (s.InFlight u ∧ op ≠ .finish u) := by
  cases op with
  | begin file range =>
    obtain ⟨r, hrun, -, heq⟩ | ⟨r, -, -, heq⟩ | ⟨hrun, heq⟩ := begin_cases s file range
    · simp [InFlight, perform, Event.startedTicket?, Event.response, heq, hrun]
    · simp [InFlight, perform, Event.startedTicket?, Event.response, heq]
    · simp [InFlight, perform, Event.startedTicket?, Event.response, heq, hrun]
  | token t => simp [perform, Event.startedTicket?, Event.response]
  | cached file => simp [perform, Event.startedTicket?, Event.response]
  | complete t remarks =>
    obtain ⟨r, -, -, heq⟩ | ⟨-, heq⟩ := complete_cases s t remarks <;>
      simp [InFlight, perform, Event.startedTicket?, Event.response, heq]
  | finish t =>
    obtain ⟨r, hrun, ht, heq⟩ | ⟨hnone, heq⟩ := finish_cases s t
    · simp [InFlight, perform, Event.startedTicket?, Event.response, heq, hrun, ht]
    · have hnot := holder?_eq_none_iff.mp hnone
      have hne : s.InFlight u → t ≠ u := fun hu h => hnot (h ▸ hu)
      simpa [perform, Event.startedTicket?, Event.response, heq] using hne
  | cancel =>
    obtain ⟨r, hrun, heq⟩ | ⟨-, heq⟩ := cancel_cases s
    · simp [InFlight, perform, Event.startedTicket?, Event.response, heq, hrun]
    · simp [perform, Event.startedTicket?, Event.response, heq]
  | save saved active =>
    obtain ⟨-, -, heq⟩ | ⟨-, heq⟩ := save_cases s saved active <;>
      simp [InFlight, perform, Event.startedTicket?, Event.response, heq]

/-! ## Any run of a new session -/

/-- After any run of a new session, a file is cached just with the remarks
    that were stored for it and not outdated since; a cache beside a running
    analysis is that of its file; no ticket was handed out twice, and none has
    a number above the count of starts; and what was refused changed nothing. -/
theorem session_told_from_history (ops : List Operation) :
    (∀ f rs, (after new ops).cached? f = some rs ↔
      ∃ earlier e later, history new ops = earlier ++ e :: later ∧ e.Stores f rs ∧
        ∀ x ∈ later, ¬ x.Outdates f) ∧
    (∀ r c, (after new ops).running = some r → (after new ops).cache = some c →
      c.file.same r.file = true) ∧
    (startedTickets (history new ops)).Nodup ∧
    (∀ t ∈ startedTickets (history new ops),
      1 ≤ t.number ∧ t.number ≤ (startedTickets (history new ops)).length) ∧
    ∀ e ∈ history new ops, e.response.Refuses → (e.before.perform e.operation).2 = e.before := by
  obtain ⟨n, -, htickets⟩ := startedTickets_history new ops
  refine ⟨?_, ?_, ?_, ?_, ?_⟩
  · intro f rs
    have hnew : new.cached? f = none := rfl
    rw [cached?_after_iff, hnew]
    simp [StoredLast]
  · exact cacheFits_after (fun r c hrun => absurd hrun (by simp [new])) ops
  · rw [htickets]
    refine List.Pairwise.map Ticket.mk ?_ List.nodup_range'
    intro a b hne heq
    exact hne (Ticket.mk.inj heq)
  · rw [htickets]
    intro t ht
    obtain ⟨k, hk, rfl⟩ := List.mem_map.mp ht
    rw [List.mem_range'_1] at hk
    rw [List.length_map, List.length_range']
    have hzero : new.started = 0 := rfl
    rw [hzero] at hk
    show 1 ≤ k ∧ k ≤ n
    omega
  · intro e _ hrefuses
    exact perform_of_refuses hrefuses

end CompilerRemarks.Session
