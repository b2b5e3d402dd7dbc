/-
  CompilerRemarks.Proofs.Session.Origin

  Where the things that a session holds come from. A running analysis comes
  from the event that handed out its ticket, and it was told to stop just if
  someone cancelled since (`OriginOf`). No other event hands out that ticket
  (`ticket_of_one_event`), so the token of a ticket is told from its history.
  Cached remarks come from the completion of a ticket, which was handed out for
  their file (`Supplies`, `Begun`).

  Saves and cancellations look at the cache and at the token only, and not at
  what an analysis under way will do later. So remarks are out of date after a
  save just if their analysis was running then, and a range is handed to an
  analysis that was told to stop just if someone cancelled since it began.
-/
import Mathlib.Data.List.Induction
import CompilerRemarks.Proofs.Session.History

namespace CompilerRemarks.Session

/-! ## Runs -/

theorem after_append (s : Session) (ops more : List Operation) :
    after s (ops ++ more) = after (after s ops) more :=
  List.foldl_append

theorem history_append (s : Session) (ops more : List Operation) :
    history s (ops ++ more) = history s ops ++ history (after s ops) more := by
  induction ops generalizing s with
  | nil => rfl
  | cons op rest ih =>
    rw [List.cons_append, history, history, List.cons_append, ih]
    rfl

/-- What holds at the start and is kept by every operation, each being added to
    the events, holds after a run. -/
theorem history_induction {P : List Event → Session → Prop} {s : Session} (hstart : P [] s)
    (hstep : ∀ events s op, P events s → P (events ++ [⟨s, op⟩]) (s.perform op).2)
    (ops : List Operation) : P (history s ops) (after s ops) := by
  induction ops using List.reverseRecOn with
  | nil => exact hstart
  | append_singleton ops op ih =>
    rw [history_append, after_append]
    exact hstep _ _ op ih

/-- An event of a run meets the session that the operations before it leave. -/
theorem mem_history {s : Session} {ops : List Operation} {e : Event} (h : e ∈ history s ops) :
    ∃ earlier later, ops = earlier ++ e.operation :: later ∧ e.before = after s earlier := by
  induction ops generalizing s with
  | nil => exact absurd h List.not_mem_nil
  | cons op rest ih =>
    rcases List.mem_cons.mp h with rfl | hrest
    · exact ⟨[], rest, rfl, rfl⟩
    · obtain ⟨earlier, later, rfl, hbefore⟩ := ih hrest
      exact ⟨op :: earlier, later, rfl, hbefore⟩

/-- Tickets handed out in a run have numbers above the count before it. -/
theorem number_of_mem_history {s : Session} {ops : List Operation} {e : Event} {t : Ticket}
    (he : e ∈ history s ops) (ht : e.startedTicket? = some t) :
    s.started < t.number ∧ t.number ≤ (after s ops).started := by
  obtain ⟨n, hcount, htickets⟩ := startedTickets_history s ops
  have hmem : t ∈ startedTickets (history s ops) := List.mem_filterMap.mpr ⟨e, he, ht⟩
  rw [htickets] at hmem
  obtain ⟨k, hk, rfl⟩ := List.mem_map.mp hmem
  rw [List.mem_range'_1] at hk
  rw [hcount]
  show s.started < k ∧ k ≤ s.started + n
  omega

/-! ## The running analysis -/

/-- An analysis that runs after an operation was started by it, or ran before
    and keeps its ticket and its file; it is told to stop by cancelling alone. -/
theorem running_perform_cases {s : Session} {op : Operation} {r : Running}
    (h : (s.perform op).2.running = some r) :
    (∃ range, op = .begin r.file range ∧ Event.startedTicket? ⟨s, op⟩ = some r.ticket ∧
      r.cancelled = false) ∨
    (∃ r', s.running = some r' ∧ r'.ticket = r.ticket ∧ r'.file = r.file ∧
      (r.cancelled = true ↔ r'.cancelled = true ∨ op = .cancel)) := by
  -- most operations leave the running analysis alone
  have hkept : op ≠ .cancel → s.running = some r → ∃ r', s.running = some r' ∧
      r'.ticket = r.ticket ∧ r'.file = r.file ∧
      (r.cancelled = true ↔ r'.cancelled = true ∨ op = .cancel) := by
    intro hop hrun
    exact ⟨r, hrun, rfl, rfl, by simp [hop]⟩
  cases op with
  | begin file range =>
    obtain ⟨r', hrun, -, heq⟩ | ⟨r', -, -, heq⟩ | ⟨-, heq⟩ := begin_cases s file range
    · rw [perform, heq] at h
      cases h
      exact Or.inr ⟨r', hrun, rfl, rfl, by simp⟩
    · rw [perform, heq] at h
      exact Or.inr (hkept (by simp) h)
    · rw [perform, heq] at h
      cases h
      refine Or.inl ⟨range, rfl, ?_, rfl⟩
      simp [Event.startedTicket?, Event.response, perform, heq]
  | token t => exact Or.inr (hkept (by simp) h)
  | cached file => exact Or.inr (hkept (by simp) h)
  | complete t remarks =>
    obtain ⟨r', -, -, heq⟩ | ⟨-, heq⟩ := complete_cases s t remarks <;>
      exact Or.inr (hkept (by simp) (by rwa [perform, heq] at h))
  | finish t =>
    obtain ⟨r', -, -, heq⟩ | ⟨-, heq⟩ := finish_cases s t
    · rw [perform, heq] at h
      cases h
    · exact Or.inr (hkept (by simp) (by rwa [perform, heq] at h))
  | cancel =>
    obtain ⟨r', hrun, heq⟩ | ⟨hidle, heq⟩ := cancel_cases s
    · rw [perform, heq] at h
      cases h
      exact Or.inr ⟨r', hrun, rfl, rfl, by simp⟩
    · rw [perform, heq, hidle] at h
      cases h
  | save saved active =>
    obtain ⟨-, -, heq⟩ | ⟨-, heq⟩ := save_cases s saved active <;>
      exact Or.inr (hkept (by simp) (by rwa [perform, heq] at h))

/-- Some event handed out the ticket of an analysis for its file, and the
    analysis was told to stop just if someone cancelled after that. -/
def OriginOf (r : Running) (events : List Event) : Prop :=
  ∃ earlier e later range, events = earlier ++ e :: later ∧
    e.operation = .begin r.file range ∧ e.startedTicket? = some r.ticket ∧
    (r.cancelled = true ↔ ∃ x ∈ later, x.operation = .cancel)

/-- An analysis that runs after a run began in it, or ran before it. -/
theorem running_after_cases {s : Session} {ops : List Operation} {r : Running}
    (h : (after s ops).running = some r) :
    OriginOf r (history s ops) ∨
      ∃ r', s.running = some r' ∧ r'.ticket = r.ticket ∧ r'.file = r.file := by
  suffices hrun : ∀ r, (after s ops).running = some r → OriginOf r (history s ops) ∨
      ∃ r', s.running = some r' ∧ r'.ticket = r.ticket ∧ r'.file = r.file from hrun r h
  refine history_induction (P := fun events s' => ∀ r, s'.running = some r → OriginOf r events ∨
      ∃ r', s.running = some r' ∧ r'.ticket = r.ticket ∧ r'.file = r.file) ?_ ?_ ops
  · intro r hrun
    exact Or.inr ⟨r, hrun, rfl, rfl⟩
  · intro events s' op ih r hrun
    rcases running_perform_cases hrun with ⟨range, hop, hticket, hnot⟩ |
      ⟨r', hrun', hticket, hfile, hcancelled⟩
    · exact Or.inl ⟨events, ⟨s', op⟩, [], range, rfl, hop, hticket, by simp [hnot]⟩
    -- the origin stays where it is; only a cancellation adds to what came after it
    · rcases ih r' hrun' with ⟨earlier, e, later, range, rfl, hop, hstart, hlater⟩ |
        ⟨r₀, hrun₀, hticket₀, hfile₀⟩
      · refine Or.inl ⟨earlier, e, later ++ [⟨s', op⟩], range, ?_, ?_, ?_, ?_⟩
        · rw [List.append_assoc, List.cons_append]
        · rw [hop, hfile]
        · rw [hstart, hticket]
        · rw [hcancelled, hlater]
          simp [or_and_right, exists_or]
      · exact Or.inr ⟨r₀, hrun₀, hticket₀.trans hticket, hfile₀.trans hfile⟩

/-- In a run of a new session every running analysis has its origin. -/
theorem originOf_running {ops : List Operation} {r : Running}
    (h : (after new ops).running = some r) : OriginOf r (history new ops) := by
  rcases running_after_cases h with horigin | ⟨r', hrun, -, -⟩
  · exact horigin
  · exact absurd hrun (by simp [new])

/-! ## Cached remarks -/

/-- A ticket was handed out for a file. -/
def Begun (f : Path) (t : Ticket) (events : List Event) : Prop :=
  ∃ e ∈ events, e.startedTicket? = some t ∧
    ∃ g range, e.operation = .begin g range ∧ g.same f = true

/-- The completion of a ticket stored remarks for a file, and no later event
    outdates them. -/
def Supplies (t : Ticket) (f : Path) (rs : List Remark) (events : List Event) : Prop :=
  ∃ earlier e later, events = earlier ++ e :: later ∧ e.operation = .complete t rs ∧
    e.response = .stored true ∧ e.before.runningFile?.any (·.same f) = true ∧
    ∀ x ∈ later, ¬ x.Outdates f

theorem storedLast_iff_supplies {f : Path} {rs : List Remark} {events : List Event} :
    StoredLast f rs events ↔ ∃ t, Supplies t f rs events := by
  constructor
  · rintro ⟨earlier, e, later, rfl, ⟨t, hop, hdone, hfile⟩, hlater⟩
    exact ⟨t, earlier, e, later, rfl, hop, hdone, hfile, hlater⟩
  · rintro ⟨t, earlier, e, later, rfl, hop, hdone, hfile, hlater⟩
    exact ⟨earlier, e, later, rfl, ⟨t, hop, hdone, hfile⟩, hlater⟩

theorem OriginOf.begun {r : Running} {events : List Event} (h : OriginOf r events) {f : Path}
    (hf : r.file.same f = true) : Begun f r.ticket events := by
  obtain ⟨earlier, e, later, range, rfl, hop, hticket, -⟩ := h
  exact ⟨e, List.mem_append_right _ List.mem_cons_self, hticket, r.file, range, hop, hf⟩

/-- Only the running analysis of a file can store remarks for it. -/
theorem running_of_stored {e : Event} {t : Ticket} {f : Path} {rs : List Remark}
    (hop : e.operation = .complete t rs) (hdone : e.response = .stored true)
    (hfile : e.before.runningFile?.any (·.same f) = true) :
    ∃ r, e.before.running = some r ∧ r.ticket = t ∧ r.file.same f = true := by
  obtain ⟨r, hrun, hticket, -⟩ | ⟨-, heq⟩ := complete_cases e.before t rs
  · exact ⟨r, hrun, hticket, by simpa [runningFile?, hrun] using hfile⟩
  · simp [Event.response, hop, perform, heq] at hdone

/-- The ticket whose completion supplied the remarks of a file was handed out
    for that file in the run, or was running for it before. -/
theorem begun_of_supplies {s : Session} {ops : List Operation} {t : Ticket} {f : Path}
    {rs : List Remark} (h : Supplies t f rs (history s ops)) :
    Begun f t (history s ops) ∨
      ∃ r, s.running = some r ∧ r.ticket = t ∧ r.file.same f = true := by
  obtain ⟨before, e, later, hevents, hop, hdone, hfile, -⟩ := h
  have he : e ∈ history s ops := hevents ▸ List.mem_append_right _ List.mem_cons_self
  obtain ⟨r, hrun, rfl, hsame⟩ := running_of_stored hop hdone hfile
  obtain ⟨earlier, rest, rfl, hbefore⟩ := mem_history he
  -- the analysis ran when it stored, so it began before that
  rw [hbefore] at hrun
  rcases running_after_cases hrun with horigin | ⟨r', hrun', hticket, hfile'⟩
  · obtain ⟨x, hx, hbegins⟩ := horigin.begun hsame
    rw [history_append]
    exact Or.inl ⟨x, List.mem_append_left _ hx, hbegins⟩
  · exact Or.inr ⟨r', hrun', hticket, by rw [hfile']; exact hsame⟩

/-- A ticket that was handed out in a run is not handed out after it. -/
theorem not_begun_of_begun {s : Session} {ops more : List Operation} {f g : Path} {t : Ticket}
    {s' : Session} (hstarted : s'.started = (after s ops).started)
    (h : Begun f t (history s ops)) : ¬ Begun g t (history s' more) := by
  rintro ⟨x, hx, hxt, -⟩
  obtain ⟨e, he, het, -⟩ := h
  have hle := (number_of_mem_history he het).2
  have hlt := (number_of_mem_history hx hxt).1
  omega

/-! ## Saving a file that is being analysed -/

theorem save_frame (s : Session) (saved : Path) (active : Option Path) :
    (s.save saved active).2.running = s.running ∧
      (s.save saved active).2.started = s.started := by
  obtain ⟨-, -, heq⟩ | ⟨-, heq⟩ := save_cases s saved active <;> rw [heq] <;> exact ⟨rfl, rfl⟩

/-- Nothing is cached for a file right after it was saved, and what is cached
    for it later was supplied by the completion of a ticket since. That ticket
    was handed out before the save just if it was running for the file when the
    file was saved, and since the save otherwise. -/
theorem outdated_iff_running_at_save (earlier later : List Operation) (f : Path)
    (rs : List Remark) :
    let s := after new earlier
    let saved := (s.save f (some f)).2
    saved.cached? f = none ∧
    ((after new (earlier ++ .save f (some f) :: later)).cached? f = some rs ↔
      ∃ t, Supplies t f rs (history saved later)) ∧
    ∀ t, Supplies t f rs (history saved later) →
      (Begun f t (history new earlier) ↔
        ∃ r, s.running = some r ∧ r.ticket = t ∧ r.file.same f = true) ∧
      (Begun f t (history saved later) ↔ ¬ Begun f t (history new earlier)) := by
  intro s saved
  have hactive : (some f : Option Path).any (·.same f) = true := Path.same_refl f
  have hcold : saved.cached? f = none := by
    cases hcached : saved.cached? f with
    | none => rfl
    | some rs' =>
      have hnot := ((cached?_save s f f (some f) rs').mp hcached).2
      exact absurd ⟨Path.same_refl f, hactive⟩ hnot
  obtain ⟨hrunning, hstarted⟩ : saved.running = s.running ∧ saved.started = s.started :=
    save_frame s f (some f)
  refine ⟨hcold, ?_, ?_⟩
  · have hafter : after new (earlier ++ .save f (some f) :: later) = after saved later := by
      rw [after_append]
      rfl
    rw [hafter, cached?_after_iff, hcold, storedLast_iff_supplies]
    simp
  · intro t hsupplies
    -- a ticket that was running at the save has its origin before it
    have hbefore : (∃ r, s.running = some r ∧ r.ticket = t ∧ r.file.same f = true) →
        Begun f t (history new earlier) := by
      rintro ⟨r, hrun, rfl, hsame⟩
      exact (originOf_running hrun).begun hsame
    have hapart : Begun f t (history new earlier) → ¬ Begun f t (history saved later) :=
      not_begun_of_begun hstarted
    have hsource := begun_of_supplies hsupplies
    rw [hrunning] at hsource
    -- the ticket is from one side of the save or the other, and never from both
    refine ⟨⟨fun hbegun => hsource.resolve_left (hapart hbegun), hbefore⟩, ?_, ?_⟩
    · exact fun hsince hbegun => hapart hbegun hsince
    · exact fun hnot => hsource.resolve_right fun hrun => hnot (hbefore hrun)

/-- A file is saved while nothing runs, and analysed again. -/
theorem fresh_after_idle_save :
    let a : Path := ⟨"a.c"⟩
    let earlier := [.begin a (.lines 1 9), .complete ⟨1⟩ [], .finish ⟨1⟩]
    let later := [.begin a (.lines 1 9), .complete ⟨2⟩ [], .finish ⟨2⟩]
    let saved := ((after new earlier).save a (some a)).2
    Supplies ⟨2⟩ a [] (history saved later) ∧ ¬ Begun a ⟨2⟩ (history new earlier) ∧
      Begun a ⟨2⟩ (history saved later) := by
  intro a earlier later saved
  have hsupplies : Supplies ⟨2⟩ a [] (history saved later) := by
    have hstored : (((saved.begin a (.lines 1 9)).2).complete ⟨2⟩ []).1 = true := by decide
    refine ⟨[_], _, [_], rfl, rfl, congrArg Response.stored hstored, by decide, ?_⟩
    -- what follows is the release of the ticket, which outdates nothing
    intro x hx
    rw [List.mem_singleton.mp hx]
    exact id
  obtain ⟨-, -, horigin⟩ := outdated_iff_running_at_save earlier later a []
  -- nothing ran at the save, so the ticket cannot be older
  obtain ⟨hbefore, hsince⟩ := horigin ⟨2⟩ hsupplies
  have hidle : (after new earlier).running = none := by decide
  have hnot : ¬ Begun a ⟨2⟩ (history new earlier) := by
    rw [hbefore, hidle]
    rintro ⟨r, hr, -⟩
    cases hr
  exact ⟨hsupplies, hnot, hsince.mpr hnot⟩

/-- A save does not reach the analysis under way: the remarks that it stores
    afterwards are of the file as it was before. -/
theorem outdated_after_save :
    ¬ ∀ (earlier later : List Operation) (f : Path) (t : Ticket) (rs : List Remark),
      (after new (earlier ++ .save f (some f) :: later)).cached? f = some rs →
      Supplies t f rs (history ((after new earlier).save f (some f)).2 later) →
      ¬ Begun f t (history new earlier) := by
  intro hclaim
  refine hclaim [.begin ⟨"a.c"⟩ (.lines 1 9)] [.complete ⟨1⟩ [], .finish ⟨1⟩] ⟨"a.c"⟩ ⟨1⟩ []
    (by decide) ?_ ?_
  · refine ⟨[], _, [_], rfl, rfl, rfl, by decide, ?_⟩
    intro x hx
    rw [List.mem_singleton.mp hx]
    exact id
  · exact ⟨_, List.mem_singleton.mpr rfl, by decide, _, _, rfl, by decide⟩

/-! ## Replacing the range of an analysis that was told to stop -/

/-- When the range of the running analysis is replaced, nothing else of the
    session changes. The analysis was told to stop just if someone cancelled
    since its ticket was handed out. -/
theorem rangeUpdated_cancelled_iff (ops : List Operation) (f : Path) (range : Range)
    (h : ((after new ops).begin f range).1 = .rangeUpdated) :
    ∃ r earlier e later, (after new ops).running = some r ∧ r.file.same f = true ∧
      ((after new ops).begin f range).2 =
        { after new ops with running := some { r with range } } ∧
      history new ops = earlier ++ e :: later ∧ e.startedTicket? = some r.ticket ∧
      (((after new ops).begin f range).2.token? r.ticket = some true ↔
        ∃ x ∈ later, x.operation = .cancel) ∧
      (((after new ops).begin f range).2.token? r.ticket = some false ↔
        ∀ x ∈ later, x.operation ≠ .cancel) := by
  obtain ⟨r, hrun, hsame, heq⟩ | ⟨r, -, -, heq⟩ | ⟨-, heq⟩ := begin_cases (after new ops) f range
  · obtain ⟨earlier, e, later, -, hevents, -, hticket, hcancelled⟩ := originOf_running hrun
    have htoken : ((after new ops).begin f range).2.token? r.ticket = some r.cancelled := by
      rw [heq]
      simp [token?, holder?]
    refine ⟨r, earlier, e, later, hrun, hsame, by rw [heq], hevents, hticket, ?_, ?_⟩
    · rw [htoken, Option.some_inj, hcancelled]
    · rw [htoken, Option.some_inj, Bool.eq_false_iff, Ne, hcancelled]
      simp
  · rw [heq] at h
    cases h
  · rw [heq] at h
    cases h

/-- An analysis that was cancelled says nothing of the next one, whose range is
    replaced. -/
theorem rangeUpdated_of_restarted :
    let a : Path := ⟨"a.c"⟩
    let ops := [.begin a (.lines 1 2), .cancel, .finish ⟨1⟩, .begin a (.lines 3 4)]
    ((after new ops).begin a (.lines 5 9)).1 = .rangeUpdated ∧
      ∃ earlier e later, history new ops = earlier ++ e :: later ∧
        e.startedTicket? = some ⟨2⟩ ∧ ∀ x ∈ later, x.operation ≠ .cancel := by
  intro a ops
  have hupdated : ((after new ops).begin a (.lines 5 9)).1 = .rangeUpdated := by decide
  obtain ⟨r, earlier, e, later, hrun, -, -, hevents, hticket, -, huntold⟩ :=
    rangeUpdated_cancelled_iff ops a (.lines 5 9) hupdated
  have hr : (after new ops).running = some ⟨⟨2⟩, a, .lines 3 4, false⟩ := by decide
  cases hr.symm.trans hrun
  exact ⟨hupdated, earlier, e, later, hevents, hticket, huntold.mp (by decide)⟩

/-- The range of an analysis is replaced although it was told to stop. -/
theorem rangeUpdated_after_cancel :
    ¬ ∀ (ops : List Operation) (f : Path) (range : Range),
      ((after new ops).begin f range).1 = .rangeUpdated →
      ∀ t, (after new ops).InFlight t →
        ((after new ops).begin f range).2.token? t = some false := by
  intro hclaim
  have htoken := hclaim [.begin ⟨"a.c"⟩ (.lines 1 2), .cancel] ⟨"a.c"⟩ (.lines 5 9) (by decide)
    ⟨1⟩ ⟨_, rfl, rfl⟩
  exact absurd htoken (by decide)

/-! ## Cancelling -/

theorem token?_eq_some_iff {s : Session} {t : Ticket} {told : Bool} :
    s.token? t = some told ↔ ∃ r, s.running = some r ∧ r.ticket = t ∧ r.cancelled = told := by
  simp only [token?, Option.map_eq_some_iff, holder?_eq_some_iff, and_assoc]

/-- Only the ticket in flight has a token. -/
theorem token?_eq_none_iff {s : Session} {t : Ticket} : s.token? t = none ↔ ¬ s.InFlight t := by
  rw [token?, Option.map_eq_none_iff, holder?_eq_none_iff]

theorem cancel_iff_inFlight (s : Session) : s.cancel.1 = true ↔ ∃ t, s.InFlight t := by
  obtain ⟨r, hrun, heq⟩ | ⟨hidle, heq⟩ := cancel_cases s
  · rw [heq]
    exact ⟨fun _ => ⟨r.ticket, r, hrun, rfl⟩, fun _ => rfl⟩
  · rw [heq]
    refine ⟨nofun, ?_⟩
    rintro ⟨t, r, hrun, -⟩
    rw [hidle] at hrun
    cases hrun

/-- Cancelling trips the token of the running analysis and makes no other. -/
theorem token?_cancel (s : Session) (t : Ticket) :
    s.cancel.2.token? t = (s.token? t).map fun _ => true := by
  obtain ⟨r, hrun, heq⟩ | ⟨hidle, heq⟩ := cancel_cases s
  · rw [heq]
    by_cases ht : r.ticket = t <;> simp [token?, holder?, hrun, ht, Option.filter]
  · rw [heq]
    simp [token?, holder?, hidle]

theorem token?_of_started {s : Session} {f : Path} {range : Range} {t : Ticket}
    (h : (s.begin f range).1 = .started t) : (s.begin f range).2.token? t = some false := by
  obtain ⟨r, -, -, heq⟩ | ⟨r, -, -, heq⟩ | ⟨-, heq⟩ := begin_cases s f range
  · rw [heq] at h
    cases h
  · rw [heq] at h
    cases h
  · rw [heq] at h
    cases h
    rw [heq]
    exact token?_eq_some_iff.mpr ⟨_, rfl, rfl, rfl⟩

/-- Tickets are numbered by the starts before them, so no other event of a run
    hands out the same one. -/
theorem ticket_of_one_event {ops : List Operation} {earlier later : List Event} {e : Event}
    {t : Ticket} (hevents : history new ops = earlier ++ e :: later)
    (ht : e.startedTicket? = some t) : ∀ x ∈ earlier ++ later, x.startedTicket? ≠ some t := by
  obtain ⟨n, -, htickets⟩ := startedTickets_history new ops
  have hnodup : (startedTickets (history new ops)).Nodup := by
    rw [htickets]
    refine List.Pairwise.map Ticket.mk ?_ List.nodup_range'
    intro a b hne heq
    exact hne (Ticket.mk.inj heq)
  rw [hevents, startedTickets, List.filterMap_append, List.filterMap_cons_some ht,
    List.nodup_append, List.nodup_cons] at hnodup
  obtain ⟨-, ⟨hlater, -⟩, hearlier⟩ := hnodup
  intro x hx hsame
  rcases List.mem_append.mp hx with hx | hx
  · exact hearlier t (List.mem_filterMap.mpr ⟨x, hx, hsame⟩) t List.mem_cons_self rfl
  · exact hlater (List.mem_filterMap.mpr ⟨x, hx, hsame⟩)

/-- At every moment of a run, the ticket in flight has a token, which is tripped
    just if someone cancelled since the one event that handed the ticket out;
    every other ticket has none. Cancelling answers whether a ticket is in
    flight and trips its token alone, and a ticket that is handed out next has
    one that is not tripped. -/
theorem cancellation_told_from_history (ops : List Operation) :
    (∀ t, (after new ops).InFlight t →
      ∃ earlier e later told, history new ops = earlier ++ e :: later ∧
        e.startedTicket? = some t ∧ (∀ x ∈ earlier ++ later, x.startedTicket? ≠ some t) ∧
        (after new ops).token? t = some told ∧
        (told = true ↔ ∃ x ∈ later, x.operation = .cancel)) ∧
    (∀ t, ¬ (after new ops).InFlight t → (after new ops).token? t = none) ∧
    ((after new ops).cancel.1 = true ↔ ∃ t, (after new ops).InFlight t) ∧
    (∀ t, (after new ops).cancel.2.token? t = ((after new ops).token? t).map fun _ => true) ∧
    ∀ f range t, ((after new ops).begin f range).1 = .started t →
      ((after new ops).begin f range).2.token? t = some false := by
  refine ⟨?_, ?_, cancel_iff_inFlight _, token?_cancel _, ?_⟩
  · rintro t ⟨r, hrun, rfl⟩
    obtain ⟨earlier, e, later, -, hevents, -, hticket, hcancelled⟩ := originOf_running hrun
    refine ⟨earlier, e, later, r.cancelled, hevents, hticket, ?_, ?_, hcancelled⟩
    · exact ticket_of_one_event hevents hticket
    · exact token?_eq_some_iff.mpr ⟨r, hrun, rfl, rfl⟩
  · intro t hnot
    exact token?_eq_none_iff.mpr hnot
  · intro f range t hstarted
    exact token?_of_started hstarted

end CompilerRemarks.Session
