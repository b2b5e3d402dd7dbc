/-
  CompilerRemarks.Proofs.Session.Interleaving

  Several analyses on one session, in any order. A turn lets one analysis make
  its next step, which is a single operation on the session, or abandons it;
  between two turns anyone may cancel or save. The log keeps what each analysis
  did to the session, so that holding a ticket is told from the log alone: the
  ticket was handed out to the analysis, which has not finished it since.

  The invariant ties the log to the session (`Arranged`). An analysis finishes
  its ticket twice, the second time perhaps after another one has begun; that
  is harmless because a ticket is handed out to one analysis only.
-/
import CompilerRemarks.Session.Analysis
import CompilerRemarks.Proofs.Session.History

namespace CompilerRemarks.Analysis

open Session (Operation Event)

/-! ## The system -/

/-- What an analysis did to the session. -/
structure Act where
  caller : Nat
  event : Event

/-- An analysis among others. -/
structure Call where
  request : Request
  /-- Where it stands; `none` once it was abandoned. -/
  phase : Option Phase

/-- Analyses that share a session. -/
structure System where
  session : Session
  calls : List Call
  log : List Act

/-- What may happen next. -/
inductive Turn where
  /-- An analysis is asked for. -/
  | arrive (q : Request)
  /-- An analysis makes a step; `collected` is how collecting ends. -/
  | advance (i : Nat) (collected : Collected)
  /-- An analysis looks whether it was told to stop. -/
  | look (i : Nat)
  /-- An analysis is abandoned. -/
  | abandon (i : Nat)
  | cancel
  | save (saved : Path) (active : Option Path)

/-- The analysis whose turn it is. -/
def Turn.caller? : Turn → Option Nat
  | .advance i _ | .look i | .abandon i => some i
  | .arrive _ | .cancel | .save _ _ => none

/-- An analysis that answered or was abandoned. -/
def Call.IsOver (call : Call) : Prop :=
  call.phase = none ∨ ∃ a, call.phase = some (.done a)

/-- The operation that a step performs. -/
def Phase.operation? (q : Request) : Phase → Option Operation
  | .asking => if q.range.isInverted then none else some (.cached q.file)
  | .claiming => some (.begin q.file q.range)
  | .running _ => none
  | .storing t remarks => some (.complete t remarks)
  | .releasing t _ _ => some (.finish t)
  | .dropping t _ => some (.finish t)
  | .done _ => none

/-- The ticket that is finished when an analysis is abandoned. -/
def Phase.guard? : Phase → Option Ticket
  | .running t => some t
  | .storing t _ => some t
  | .releasing t _ _ => some t
  | .dropping t _ => some t
  | .asking | .claiming | .done _ => none

namespace System

/-- A new session that nobody uses. -/
def new : System := ⟨.new, [], []⟩

/-- The analysis `i` goes on to a phase without touching the session. -/
def moveTo (s : System) (i : Nat) (q : Request) (next : Option Phase) : System :=
  { s with calls := s.calls.set i ⟨q, next⟩ }

/-- The analysis `i` performs an operation and goes on to a phase. -/
def act (s : System) (i : Nat) (q : Request) (op : Operation) (next : Option Phase) : System :=
  ⟨(s.session.perform op).2, s.calls.set i ⟨q, next⟩, s.log ++ [⟨i, ⟨s.session, op⟩⟩]⟩

/-- One step of the analysis `i`. -/
def advance (s : System) (i : Nat) (collected : Collected) : System :=
  match s.calls[i]? with
  | some ⟨q, some p⟩ =>
    let (session, next) := Analysis.step q collected s.session p
    ⟨session, s.calls.set i ⟨q, some next⟩,
      s.log ++ (p.operation? q).toList.map fun op => ⟨i, ⟨s.session, op⟩⟩⟩
  | _ => s

/-- A look of the analysis `i` at its token. -/
def look (s : System) (i : Nat) : System :=
  match s.calls[i]? with
  | some ⟨q, some (.running t)⟩ => s.act i q (.token t) (some (.running t))
  | _ => s

/-- The end of the analysis `i` wherever it stands. -/
def abandon (s : System) (i : Nat) : System :=
  match s.calls[i]? with
  | some ⟨q, some p⟩ =>
    match p.guard? with
    -- the guard runs wherever the analysis stopped
    | some t => s.act i q (.finish t) none
    | none => s.moveTo i q none
  | _ => s

/-- One turn. -/
def step (s : System) : Turn → System
  | .arrive q => { s with calls := s.calls ++ [⟨q, some .asking⟩] }
  | .advance i collected => s.advance i collected
  | .look i => s.look i
  | .abandon i => s.abandon i
  | .cancel => { s with session := s.session.cancel.2 }
  | .save saved active => { s with session := (s.session.save saved active).2 }

/-- Turns one after the other. -/
def run (turns : List Turn) : System :=
  turns.foldl step new

end System

/-! ## Tickets in the log -/

/-- The act hands a ticket out to an analysis. -/
def Act.Starts (i : Nat) (t : Ticket) (x : Act) : Prop :=
  x.caller = i ∧ x.event.startedTicket? = some t

/-- The act is an analysis finishing a ticket. -/
def Act.Finishes (i : Nat) (t : Ticket) (x : Act) : Prop :=
  x.caller = i ∧ x.event.operation = .finish t

/-- A ticket was handed out to an analysis. -/
def Obtained (log : List Act) (i : Nat) (t : Ticket) : Prop :=
  ∃ x ∈ log, x.Starts i t

/-- A ticket was handed out to an analysis that has not finished it since. -/
def Holds (log : List Act) (i : Nat) (t : Ticket) : Prop :=
  ∃ earlier x later, log = earlier ++ x :: later ∧ x.Starts i t ∧
    ∀ y ∈ later, ¬ y.Finishes i t

theorem obtained_append {log : List Act} {x : Act} {i : Nat} {t : Ticket} :
    Obtained (log ++ [x]) i t ↔ Obtained log i t ∨ x.Starts i t := by
  simp [Obtained, or_and_right, exists_or]

theorem Holds.obtained {log : List Act} {i : Nat} {t : Ticket} (h : Holds log i t) :
    Obtained log i t := by
  obtain ⟨earlier, x, later, rfl, hstarts, -⟩ := h
  exact ⟨x, List.mem_append_right _ List.mem_cons_self, hstarts⟩

theorem not_holds_of_not_obtained {log : List Act} {i : Nat} (h : ∀ t, ¬ Obtained log i t)
    (t : Ticket) : ¬ Holds log i t :=
  fun ht => h t ht.obtained

theorem holds_append {log : List Act} {x : Act} {i : Nat} {t : Ticket} :
    Holds (log ++ [x]) i t ↔ x.Starts i t ∨ (Holds log i t ∧ ¬ x.Finishes i t) := by
  constructor
  · rintro ⟨earlier, y, later, heq, hstarts, hlater⟩
    rcases List.eq_nil_or_concat later with rfl | ⟨later, z, rfl⟩
    · obtain ⟨-, hx⟩ := List.append_inj' heq rfl
      cases hx
      exact Or.inl hstarts
    · rw [List.concat_eq_append] at heq hlater
      rw [← List.cons_append, ← List.append_assoc] at heq
      obtain ⟨hlog, hx⟩ := List.append_inj' heq rfl
      cases hx
      refine Or.inr ⟨⟨earlier, y, later, hlog, hstarts, ?_⟩, ?_⟩
      · exact fun w hw => hlater w (List.mem_append_left _ hw)
      · exact hlater x (List.mem_append_right _ List.mem_cons_self)
  · rintro (hstarts | ⟨⟨earlier, y, later, rfl, hstarts, hlater⟩, hnot⟩)
    · exact ⟨log, x, [], rfl, hstarts, fun y hy => absurd hy List.not_mem_nil⟩
    · refine ⟨earlier, y, later ++ [x], by rw [List.append_assoc, List.cons_append], hstarts, ?_⟩
      intro w hw
      rcases List.mem_append.mp hw with hw | hw
      · exact hlater w hw
      · rw [List.mem_singleton.mp hw]
        exact hnot

/-! ## The invariant -/

/-- What the log says of an analysis that stands at a phase. -/
def Fits (log : List Act) (i : Nat) : Option Phase → Prop
  | some .asking | some .claiming => ∀ t, ¬ Obtained log i t
  | some (.running t) | some (.storing t _) | some (.releasing t _ _) => Holds log i t
  -- the ticket may have been finished already, and will be once more
  | some (.dropping t _) => Obtained log i t
  | some (.done _) | none => ∀ t, ¬ Holds log i t

/-- The tickets that an operation finishes or completes are those of its
    caller, who leaves cancelling and saving to others. -/
def Act.IsOwn (log : List Act) (x : Act) : Prop :=
  match x.event.operation with
  | .finish t | .complete t _ => Obtained log x.caller t
  | .cancel | .save _ _ => False
  | .begin _ _ | .token _ | .cached _ => True

/-- The session, the analyses and the log of a system fit together. -/
structure Arranged (s : System) : Prop where
  bounded : ∀ i t, Obtained s.log i t → t.number ≤ s.session.started ∧ i < s.calls.length
  owner : ∀ i j t, Obtained s.log i t → Obtained s.log j t → i = j
  single : ∀ i t u, Obtained s.log i t → Obtained s.log i u → t = u
  inFlight : ∀ i t, Holds s.log i t → s.session.InFlight t
  held : ∀ i t, Obtained s.log i t → s.session.InFlight t → Holds s.log i t
  known : ∀ t, s.session.InFlight t → ∃ i, Obtained s.log i t
  own : ∀ x ∈ s.log, x.IsOwn s.log
  fits : ∀ i call, s.calls[i]? = some call → Fits s.log i call.phase

theorem arranged_new : Arranged .new := by
  have hnone : ∀ i t, ¬ Obtained System.new.log i t := by
    rintro i t ⟨x, hx, -⟩
    exact absurd hx List.not_mem_nil
  constructor
  case bounded => exact fun i t h => absurd h (hnone i t)
  case owner => exact fun i j t h => absurd h (hnone i t)
  case single => exact fun i t u h => absurd h (hnone i t)
  case inFlight => exact fun i t h => absurd h.obtained (hnone i t)
  case held => exact fun i t h => absurd h (hnone i t)
  case known =>
    rintro t ⟨r, hrun, -⟩
    exact absurd hrun (by simp [System.new, Session.new])
  case own => exact fun x hx => absurd hx List.not_mem_nil
  case fits => exact fun i call h => absurd h (by simp [System.new])

theorem fits_append_iff {log : List Act} {x : Act} {i : Nat} (hstarts : ∀ t, ¬ x.Starts i t)
    (hfinishes : ∀ t, ¬ x.Finishes i t) (phase : Option Phase) :
    Fits (log ++ [x]) i phase ↔ Fits log i phase := by
  have hobtained : ∀ t, Obtained (log ++ [x]) i t ↔ Obtained log i t := by
    intro t
    simp [obtained_append, hstarts t]
  have hholds : ∀ t, Holds (log ++ [x]) i t ↔ Holds log i t := by
    intro t
    simp [holds_append, hstarts t, hfinishes t]
  cases phase with
  | none => simp [Fits, hholds]
  | some p => cases p <;> simp [Fits, hholds, hobtained]

/-- A phase of one analysis is not touched by what another one does. -/
theorem fits_append_of_ne {log : List Act} {x : Act} {i : Nat} (h : x.caller ≠ i)
    (phase : Option Phase) : Fits (log ++ [x]) i phase ↔ Fits log i phase :=
  fits_append_iff (fun _ hs => h hs.1) (fun _ hf => h hf.1) phase

/-- An act that hands out no ticket and finishes none leaves every phase in
    its place. -/
theorem fits_append_quiet {log : List Act} {x : Act} {i : Nat}
    (hstart : x.event.startedTicket? = none) (hfinish : ∀ t, x.event.operation ≠ .finish t)
    (phase : Option Phase) : Fits (log ++ [x]) i phase ↔ Fits log i phase := by
  have hstarts : ∀ t, ¬ x.Starts i t := fun t hs => by rw [Act.Starts, hstart] at hs; cases hs.2
  have hfinishes : ∀ t, ¬ x.Finishes i t := fun t hf => hfinish t hf.2
  exact fits_append_iff hstarts hfinishes phase

theorem fits_set {log : List Act} {calls : List Call} {i : Nat} {q : Request}
    {next : Option Phase} (hnext : Fits log i next)
    (hothers : ∀ j call, i ≠ j → calls[j]? = some call → Fits log j call.phase) :
    ∀ j call, (calls.set i ⟨q, next⟩)[j]? = some call → Fits log j call.phase := by
  intro j call hcall
  by_cases hij : i = j
  · subst hij
    rw [List.getElem?_set] at hcall
    split at hcall
    · split at hcall
      · cases hcall
        exact hnext
      · exact absurd hcall (by simp)
    · exact absurd rfl (by assumption)
  · rw [List.getElem?_set_ne hij] at hcall
    exact hothers j call hij hcall

theorem Act.IsOwn.append {log : List Act} {x : Act} (h : x.IsOwn log) (y : Act) :
    x.IsOwn (log ++ [y]) := by
  unfold Act.IsOwn at h ⊢
  split at h
  · exact obtained_append.mpr (Or.inl h)
  · exact obtained_append.mpr (Or.inl h)
  · exact h
  · exact h
  · trivial
  · trivial
  · trivial

namespace Arranged

variable {s : System} {i : Nat} {q : Request} {op : Operation} {next : Option Phase}

/-- An analysis may go on to a phase that the log allows. -/
theorem moveTo (h : Arranged s) (hnext : Fits s.log i next) : Arranged (s.moveTo i q next) where
  bounded := by
    intro j t ht
    rw [System.moveTo, List.length_set]
    exact h.bounded j t ht
  owner := h.owner
  single := h.single
  inFlight := h.inFlight
  held := h.held
  known := h.known
  own := h.own
  fits := fits_set hnext fun j call _ hcall => h.fits j call hcall

/-- An analysis may perform an operation on its own ticket, or ask for one if
    it has none, and go on to a phase that the log then allows. -/
theorem act (h : Arranged s) (hi : i < s.calls.length)
    (hown : Act.IsOwn s.log ⟨i, ⟨s.session, op⟩⟩)
    (hfresh : ∀ t, Event.startedTicket? ⟨s.session, op⟩ = some t → ∀ u, ¬ Obtained s.log i u)
    (hnext : Fits (s.log ++ [⟨i, ⟨s.session, op⟩⟩]) i next) : Arranged (s.act i q op next) := by
  have hcount := Session.startedTicket?_cases s.session op
  -- a ticket handed out now has a number that no ticket in the log has
  have hnew : ∀ t, Event.startedTicket? ⟨s.session, op⟩ = some t → ∀ j, ¬ Obtained s.log j t := by
    intro t ht j hj
    have hle := (h.bounded j t hj).1
    rcases hcount with ⟨hsome, -⟩ | ⟨hnone, -⟩
    · rw [hsome] at ht
      cases ht
      exact absurd hle (by simp)
    · rw [hnone] at ht
      cases ht
  -- the operation finishes no ticket of another analysis
  have hkeeps : ∀ j t, Obtained s.log j t → op = .finish t → j = i := by
    rintro j t hj rfl
    exact h.owner j i t hj hown
  constructor
  case bounded =>
    intro j t ht
    rw [System.act, List.length_set]
    rcases obtained_append.mp ht with hold | ⟨rfl, hstarts⟩
    · have hb := h.bounded j t hold
      rcases hcount with ⟨-, hs⟩ | ⟨-, hs⟩ <;> exact ⟨by simp only [hs]; omega, hb.2⟩
    · refine ⟨?_, hi⟩
      rcases hcount with ⟨hsome, hs⟩ | ⟨hnone, -⟩
      · rw [hsome] at hstarts
        cases hstarts
        simp only [hs]
        exact Nat.le_refl _
      · rw [hnone] at hstarts
        cases hstarts
  case owner =>
    intro j k t hj hk
    rcases obtained_append.mp hj with hj' | ⟨hji, hj'⟩ <;>
      rcases obtained_append.mp hk with hk' | ⟨hki, hk'⟩
    · exact h.owner j k t hj' hk'
    · exact absurd hj' (hnew t hk' j)
    · exact absurd hk' (hnew t hj' k)
    · exact hji.symm.trans hki
  case single =>
    intro j t u ht hu
    rcases obtained_append.mp ht with ht' | ⟨hji, ht'⟩ <;>
      rcases obtained_append.mp hu with hu' | ⟨hji', hu'⟩
    · exact h.single j t u ht' hu'
    -- an analysis asks for a ticket only while it has none
    · subst hji'
      exact absurd ht' (hfresh u hu' t)
    · subst hji
      exact absurd hu' (hfresh t ht' u)
    · exact Option.some.inj (ht'.symm.trans hu')
  case inFlight =>
    intro j t hj
    refine (Session.inFlight_perform_iff s.session op t).mpr ?_
    rcases holds_append.mp hj with ⟨-, hstarts⟩ | ⟨hold, hnot⟩
    · exact Or.inl hstarts
    · refine Or.inr ⟨h.inFlight j t hold, ?_⟩
      intro hop
      exact hnot ⟨(hkeeps j t hold.obtained hop).symm, hop⟩
  case held =>
    intro j t hj hfly
    rw [System.act, holds_append]
    rcases obtained_append.mp hj with hj' | hstarts
    · rcases (Session.inFlight_perform_iff s.session op t).mp hfly with hstarts | ⟨hfly', hop⟩
      · exact absurd hj' (hnew t hstarts j)
      · exact Or.inr ⟨h.held j t hj' hfly', fun hf => hop hf.2⟩
    · exact Or.inl hstarts
  case known =>
    intro t hfly
    rcases (Session.inFlight_perform_iff s.session op t).mp hfly with hstarts | ⟨hfly', -⟩
    · exact ⟨i, obtained_append.mpr (Or.inr ⟨rfl, hstarts⟩)⟩
    · obtain ⟨j, hj⟩ := h.known t hfly'
      exact ⟨j, obtained_append.mpr (Or.inl hj)⟩
  case own =>
    intro x hx
    rcases List.mem_append.mp hx with hx' | hx'
    · exact (h.own x hx').append _
    · rw [List.mem_singleton.mp hx']
      exact hown.append _
  case fits =>
    refine fits_set hnext ?_
    intro j call hij hcall
    exact (fits_append_of_ne hij call.phase).mpr (h.fits j call hcall)

/-- An analysis may look at the session and store under its own ticket. -/
theorem quiet (h : Arranged s) (hi : i < s.calls.length)
    (hown : Act.IsOwn s.log ⟨i, ⟨s.session, op⟩⟩)
    (hstart : Event.startedTicket? ⟨s.session, op⟩ = none) (hfinish : ∀ t, op ≠ .finish t)
    (hnext : Fits s.log i next) : Arranged (s.act i q op next) := by
  refine h.act hi hown ?_ ?_
  · intro t ht
    rw [hstart] at ht
    cases ht
  · exact (fits_append_quiet hstart hfinish next).mpr hnext

/-- An analysis that finishes its ticket holds none. -/
theorem not_holds_finish (h : Arranged s) {t : Ticket} (ht : Obtained s.log i t) (u : Ticket) :
    ¬ Holds (s.log ++ [⟨i, ⟨s.session, .finish t⟩⟩]) i u := by
  intro hu
  rcases holds_append.mp hu with ⟨-, hs⟩ | ⟨hold, hnot⟩
  · cases hs
  · rw [h.single i u t hold.obtained ht] at hnot
    exact hnot ⟨rfl, rfl⟩

/-- An analysis may finish its ticket, also for the second time. -/
theorem finish (h : Arranged s) (hi : i < s.calls.length) {t : Ticket} (ht : Obtained s.log i t)
    (hnext : Fits (s.log ++ [⟨i, ⟨s.session, .finish t⟩⟩]) i next) :
    Arranged (s.act i q (.finish t) next) := by
  refine h.act hi ht ?_ hnext
  intro u hu
  cases hu

/-- Others may cancel and save. -/
theorem others (h : Arranged s) (op : Operation)
    (hstart : Event.startedTicket? ⟨s.session, op⟩ = none)
    (hfinish : ∀ t, op ≠ .finish t) :
    Arranged { s with session := (s.session.perform op).2 } := by
  have hfly : ∀ t, (s.session.perform op).2.InFlight t ↔ s.session.InFlight t := by
    intro t
    simp [Session.inFlight_perform_iff, hstart, hfinish t]
  have hcount : (s.session.perform op).2.started = s.session.started := by
    rcases Session.startedTicket?_cases s.session op with ⟨hsome, -⟩ | ⟨-, hs⟩
    · rw [hstart] at hsome
      cases hsome
    · exact hs
  refine ⟨?_, h.owner, h.single, ?_, ?_, ?_, h.own, h.fits⟩
  · intro j t ht
    simp only [hcount]
    exact h.bounded j t ht
  · exact fun j t ht => (hfly t).mpr (h.inFlight j t ht)
  · exact fun j t hj ht => h.held j t hj ((hfly t).mp ht)
  · exact fun t ht => h.known t ((hfly t).mp ht)

end Arranged

/-! ## Turns -/

/-- A step does to the session what its one operation does. -/
theorem step_session (q : Request) (collected : Collected) (s : Session) (p : Phase) :
    (step q collected s p).1 =
      ((p.operation? q).map fun op => (s.perform op).2).getD s := by
  cases p with
  | asking =>
    simp only [step, Phase.operation?]
    split
    · rfl
    · split <;> rfl
  | claiming =>
    obtain ⟨r, -, -, heq⟩ | ⟨r, -, -, heq⟩ | ⟨-, heq⟩ := s.begin_cases q.file q.range <;>
      simp [step, Phase.operation?, Session.perform, heq]
  | running t => rfl
  | storing t remarks => rfl
  | releasing t remarks message => rfl
  | dropping t a => rfl
  | done a => rfl

theorem advance_eq {s : System} {i : Nat} {q : Request} {p : Phase}
    (hcall : s.calls[i]? = some ⟨q, some p⟩) (collected : Collected) :
    s.advance i collected =
      match p.operation? q with
      | some op => s.act i q op (some (step q collected s.session p).2)
      | none => s.moveTo i q (some (step q collected s.session p).2) := by
  have hsession := step_session q collected s.session p
  rw [System.advance, hcall]
  cases hop : p.operation? q with
  | none =>
    rw [hop] at hsession
    simp only [hsession, hop]
    simp [System.moveTo]
  | some op =>
    rw [hop] at hsession
    simp only [hsession, hop]
    rfl

theorem arranged_arrive {s : System} (h : Arranged s) (q : Request) :
    Arranged { s with calls := s.calls ++ [⟨q, some .asking⟩] } := by
  refine ⟨?_, h.owner, h.single, h.inFlight, h.held, h.known, h.own, ?_⟩
  · intro i t ht
    have hb := h.bounded i t ht
    rw [List.length_append]
    exact ⟨hb.1, by omega⟩
  · intro i call hcall
    rw [List.getElem?_append] at hcall
    split at hcall
    · exact h.fits i call hcall
    · rename_i hlt
      -- the newcomer is behind every analysis that the log knows
      rw [List.getElem?_singleton] at hcall
      split at hcall
      · cases hcall
        exact fun t ht => hlt (h.bounded i t ht).2
      · cases hcall

theorem Fits.obtained_of_guard? {log : List Act} {i : Nat} {p : Phase} {t : Ticket}
    (h : Fits log i (some p)) (hguard : p.guard? = some t) : Obtained log i t := by
  cases p with
  | asking => cases hguard
  | claiming => cases hguard
  | running u => cases hguard; exact Holds.obtained h
  | storing u remarks => cases hguard; exact Holds.obtained h
  | releasing u remarks message => cases hguard; exact Holds.obtained h
  | dropping u a => cases hguard; exact h
  | done a => cases hguard

theorem Fits.not_holds_of_guard? {log : List Act} {i : Nat} {p : Phase}
    (h : Fits log i (some p)) (hguard : p.guard? = none) (t : Ticket) : ¬ Holds log i t := by
  cases p with
  | asking => exact not_holds_of_not_obtained h t
  | claiming => exact not_holds_of_not_obtained h t
  | running u => cases hguard
  | storing u remarks => cases hguard
  | releasing u remarks message => cases hguard
  | dropping u a => cases hguard
  | done a => exact h t

/-- Collecting leaves the ticket with the analysis. -/
theorem Fits.after {log : List Act} {i : Nat} {t : Ticket} (h : Holds log i t)
    (collected : Collected) : Fits log i (some (.after t collected)) := by
  cases collected with
  | completed remarks => exact h
  | cancelled remarks => exact h.obtained
  | failed message remarks =>
    cases remarks with
    | nil => exact h.obtained
    | cons r rest => exact h

theorem arranged_advance {s : System} (h : Arranged s) (i : Nat) (collected : Collected) :
    Arranged (s.advance i collected) := by
  cases hcall : s.calls[i]? with
  | none => rw [System.advance, hcall]; exact h
  | some call =>
    obtain ⟨q, phase⟩ := call
    cases phase with
    | none => rw [System.advance, hcall]; exact h
    | some p =>
      have hi : i < s.calls.length := (List.getElem?_eq_some_iff.mp hcall).1
      have hfits : Fits s.log i (some p) := h.fits i _ hcall
      rw [advance_eq hcall]
      cases p with
      | asking =>
        simp only [Phase.operation?]
        split
        · rename_i op hop
          obtain ⟨hvalid, rfl⟩ : ¬ q.range.isInverted = true ∧ Operation.cached q.file = op := by
            simpa using hop
          refine h.quiet hi trivial rfl (fun _ => by simp) ?_
          simp only [step, hvalid]
          cases s.session.cached? q.file with
          | none => exact hfits
          | some remarks => exact not_holds_of_not_obtained hfits
        · rename_i hop
          have hinverted : q.range.isInverted = true := by simpa using hop
          simp only [step, hinverted, if_true]
          exact h.moveTo (not_holds_of_not_obtained hfits)
      | claiming =>
        simp only [Phase.operation?]
        obtain ⟨r, -, -, heq⟩ | ⟨r, -, -, heq⟩ | ⟨-, heq⟩ := s.session.begin_cases q.file q.range
        -- both refusals end the analysis, which never had a ticket
        · refine h.quiet hi trivial ?_ (fun _ => by simp) ?_
          · simp [Event.startedTicket?, Event.response, Session.perform, heq]
          · simp only [step, heq]
            exact not_holds_of_not_obtained hfits
        · refine h.quiet hi trivial ?_ (fun _ => by simp) ?_
          · simp [Event.startedTicket?, Event.response, Session.perform, heq]
          · simp only [step, heq]
            exact not_holds_of_not_obtained hfits
        · refine h.act hi trivial (fun _ _ => hfits) ?_
          simp only [step, heq]
          refine holds_append.mpr (Or.inl ⟨rfl, ?_⟩)
          simp [Event.startedTicket?, Event.response, Session.perform, heq]
      | running t => exact h.moveTo (Fits.after hfits collected)
      | storing t remarks =>
        exact h.quiet hi (Holds.obtained hfits) rfl (fun _ => by simp) hfits
      | releasing t remarks message =>
        -- the guard still has the ticket, so it stays the analysis's own
        have ht : Obtained s.log i t := Holds.obtained hfits
        exact h.finish hi ht (obtained_append.mpr (Or.inl ht))
      | dropping t a => exact h.finish hi hfits (h.not_holds_finish hfits)
      | done a => exact h.moveTo hfits

theorem arranged_look {s : System} (h : Arranged s) (i : Nat) : Arranged (s.look i) := by
  rw [System.look]
  split
  · rename_i q t hcall
    have hi : i < s.calls.length := (List.getElem?_eq_some_iff.mp hcall).1
    exact h.quiet hi trivial rfl (fun _ => by simp) (h.fits i _ hcall)
  · exact h

theorem arranged_abandon {s : System} (h : Arranged s) (i : Nat) : Arranged (s.abandon i) := by
  rw [System.abandon]
  split
  · rename_i q p hcall
    have hi : i < s.calls.length := (List.getElem?_eq_some_iff.mp hcall).1
    have hfits : Fits s.log i (some p) := h.fits i _ hcall
    cases hguard : p.guard? with
    | some t =>
      have ht := hfits.obtained_of_guard? hguard
      exact h.finish hi ht (h.not_holds_finish ht)
    | none => exact h.moveTo (hfits.not_holds_of_guard? hguard)
  · exact h

theorem arranged_step {s : System} (h : Arranged s) (turn : Turn) : Arranged (s.step turn) := by
  cases turn with
  | arrive q => exact arranged_arrive h q
  | advance i collected => exact arranged_advance h i collected
  | look i => exact arranged_look h i
  | abandon i => exact arranged_abandon h i
  | cancel => exact h.others .cancel rfl (fun _ => by simp)
  | save saved active => exact h.others (.save saved active) rfl (fun _ => by simp)

theorem arranged_run (turns : List Turn) : Arranged (.run turns) := by
  suffices hfrom : ∀ s, Arranged s → Arranged (turns.foldl System.step s) from
    hfrom .new arranged_new
  induction turns with
  | nil => exact fun s h => h
  | cons turn rest ih => exact fun s h => ih (s.step turn) (arranged_step h turn)

/-! ## One analysis and the others -/

/-- An analysis touches the session by one operation, which the log then
    shows, or not at all. -/
theorem turn_cases {turn : Turn} {i : Nat} (h : turn.caller? = some i) (s : System) :
    ((s.step turn).session = s.session ∧ (s.step turn).log = s.log) ∨
      ∃ op, (s.step turn).session = (s.session.perform op).2 ∧
        (s.step turn).log = s.log ++ [⟨i, ⟨s.session, op⟩⟩] := by
  cases turn with
  | arrive q => cases h
  | advance j collected =>
    cases h
    rw [System.step]
    cases hcall : s.calls[i]? with
    | none => exact Or.inl (by simp [System.advance, hcall])
    | some call =>
      obtain ⟨q, phase⟩ := call
      cases phase with
      | none => exact Or.inl (by simp [System.advance, hcall])
      | some p =>
        rw [advance_eq hcall]
        cases p.operation? q with
        | none => exact Or.inl ⟨rfl, rfl⟩
        | some op => exact Or.inr ⟨op, rfl, rfl⟩
  | look j =>
    cases h
    rw [System.step, System.look]
    split
    · exact Or.inr ⟨_, rfl, rfl⟩
    · exact Or.inl ⟨rfl, rfl⟩
  | abandon j =>
    cases h
    rw [System.step, System.abandon]
    split
    · split
      · exact Or.inr ⟨_, rfl, rfl⟩
      · exact Or.inl ⟨rfl, rfl⟩
    · exact Or.inl ⟨rfl, rfl⟩
  | cancel => cases h
  | save saved active => cases h

/-- An analysis that meets a ticket of another one in flight can only replace
    the range that is asked for. -/
theorem Act.IsOwn.spares {log : List Act} {i : Nat} {s : Session} {op : Operation} {t : Ticket}
    (hown : Act.IsOwn log ⟨i, ⟨s, op⟩⟩) (hother : ¬ Obtained log i t) (hfly : s.InFlight t) :
    (s.perform op).2 = s ∨ ∃ r range, s.running = some r ∧ r.ticket = t ∧
      (s.perform op).2 = { s with running := some { r with range } } := by
  obtain ⟨r, hrun, ht⟩ := hfly
  -- only the ticket in flight can be completed or finished
  have hnone : ∀ u, Obtained log i u → s.holder? u = none := by
    intro u hu
    rw [Session.holder?_eq_none_iff]
    rintro ⟨r', hrun', hu'⟩
    cases hrun.symm.trans hrun'
    exact hother (ht ▸ hu' ▸ hu)
  cases op with
  | begin file range =>
    obtain ⟨r', hrun', -, heq⟩ | ⟨r', -, -, heq⟩ | ⟨hidle, -⟩ := s.begin_cases file range
    · cases hrun.symm.trans hrun'
      exact Or.inr ⟨r, range, hrun, ht, by rw [Session.perform, heq]⟩
    · exact Or.inl (by rw [Session.perform, heq])
    · exact absurd (hrun.symm.trans hidle) (by simp)
  | token u => exact Or.inl rfl
  | cached file => exact Or.inl rfl
  | complete u remarks =>
    refine Or.inl ?_
    rw [Session.perform, Session.complete, hnone u hown]
  | finish u =>
    refine Or.inl ?_
    rw [Session.perform, Session.finish, hnone u hown]
  | cancel => exact hown.elim
  | save saved active => exact hown.elim

namespace Arranged

variable {s : System}

theorem holder_unique (h : Arranged s) {i j : Nat} {t u : Ticket} (ht : Holds s.log i t)
    (hu : Holds s.log j u) : i = j ∧ t = u := by
  obtain ⟨r, hrun, hrt⟩ := h.inFlight i t ht
  obtain ⟨r', hrun', hru⟩ := h.inFlight j u hu
  cases hrun.symm.trans hrun'
  have htu : t = u := hrt.symm.trans hru
  exact ⟨h.owner i j t ht.obtained (htu ▸ hu.obtained), htu⟩

theorem inFlight_iff (h : Arranged s) (t : Ticket) :
    s.session.InFlight t ↔ ∃ i, Holds s.log i t := by
  constructor
  · intro hfly
    obtain ⟨i, hi⟩ := h.known t hfly
    exact ⟨i, h.held i t hi hfly⟩
  · rintro ⟨i, ht⟩
    exact h.inFlight i t ht

/-- An analysis that is over left its ticket released. -/
theorem released (h : Arranged s) {i : Nat} {call : Call} {t : Ticket}
    (hcall : s.calls[i]? = some call) (hover : call.IsOver) (ht : Obtained s.log i t) :
    ¬ s.session.InFlight t := by
  intro hfly
  have hfits := h.fits i call hcall
  have hholds : Holds s.log i t := h.held i t ht hfly
  rcases hover with hphase | ⟨a, hphase⟩
  · rw [hphase] at hfits
    exact hfits t hholds
  · rw [hphase] at hfits
    exact hfits t hholds

/-- A ticket that an analysis finishes or completes is its own. -/
theorem obtained_iff_caller (h : Arranged s) {x : Act} (hx : x ∈ s.log) {t : Ticket}
    (hop : x.event.operation = .finish t ∨ ∃ remarks, x.event.operation = .complete t remarks)
    (j : Nat) : Obtained s.log j t ↔ j = x.caller := by
  have hown := h.own x hx
  have ht : Obtained s.log x.caller t := by
    rcases hop with hop | ⟨remarks, hop⟩
    · rw [Act.IsOwn, hop] at hown
      exact hown
    · rw [Act.IsOwn, hop] at hown
      exact hown
  exact ⟨fun hj => h.owner j x.caller t hj ht, fun hj => hj ▸ ht⟩

/-- While another analysis holds a ticket, a turn leaves the session as it is
    but for the range that is asked for. -/
theorem spared (h : Arranged s) {turn : Turn} {i j : Nat} {t : Ticket}
    (hturn : turn.caller? = some i) (hji : j ≠ i) (ht : Holds s.log j t) :
    (s.step turn).session = s.session ∨ ∃ r range, s.session.running = some r ∧ r.ticket = t ∧
      (s.step turn).session = { s.session with running := some { r with range } } := by
  have h' : Arranged (s.step turn) := arranged_step h turn
  rcases turn_cases hturn s with ⟨hsession, -⟩ | ⟨op, hsession, hlog⟩
  · exact Or.inl hsession
  · have hown := h'.own ⟨i, ⟨s.session, op⟩⟩ (hlog ▸ List.mem_append_right _ List.mem_cons_self)
    -- tickets have one owner, also in the longer log
    have hother : ¬ Obtained (s.step turn).log i t := by
      intro hi
      have hj : Obtained (s.step turn).log j t := by
        rw [hlog]
        exact obtained_append.mpr (Or.inl ht.obtained)
      exact hji (h'.owner j i t hj hi)
    rw [hsession]
    exact hown.spares hother (h.inFlight j t ht)

end Arranged

/-- Whatever the order of the turns, at most one analysis holds a ticket, and
    that ticket is the one in flight. An analysis that is over left its ticket
    released; it completes and finishes its own ticket only, and what it does
    while another one holds the session leaves that one in flight and the cache
    alone. -/
theorem one_holder_at_a_time (turns : List Turn) :
    let s := System.run turns
    (∀ i j t u, Holds s.log i t → Holds s.log j u → i = j ∧ t = u) ∧
    (∀ t, s.session.InFlight t ↔ ∃ i, Holds s.log i t) ∧
    (∀ i q p t, s.calls[i]? = some ⟨q, some p⟩ → p.guard? = some t → Obtained s.log i t) ∧
    (∀ i call t, s.calls[i]? = some call → call.IsOver → Obtained s.log i t →
      ¬ s.session.InFlight t) ∧
    (∀ x ∈ s.log, ∀ t, (x.event.operation = .finish t ∨
      ∃ remarks, x.event.operation = .complete t remarks) →
      ∀ j, Obtained s.log j t ↔ j = x.caller) ∧
    (∀ turn i j t, turn.caller? = some i → j ≠ i → Holds s.log j t →
      (s.step turn).session = s.session ∨ ∃ r range, s.session.running = some r ∧
        r.ticket = t ∧
        (s.step turn).session = { s.session with running := some { r with range } }) := by
  intro s
  have h : Arranged s := arranged_run turns
  refine ⟨?_, h.inFlight_iff, ?_, ?_, ?_, ?_⟩
  · intro i j t u ht hu
    exact h.holder_unique ht hu
  · intro i q p t hcall hguard
    exact (h.fits i _ hcall).obtained_of_guard? hguard
  · intro i call t hcall hover ht
    exact h.released hcall hover ht
  · intro x hx t hop j
    exact h.obtained_iff_caller hx hop j
  · intro turn i j t hturn hji ht
    exact h.spared hturn hji ht

-- the first analysis finishes for the second time after the second one began
example :
    let first := Turn.advance 0 (.completed [])
    let second := Turn.advance 1 (.completed [])
    let s := System.run ([.arrive ⟨⟨"a.c"⟩, .lines 1 9⟩, .arrive ⟨⟨"b.c"⟩, .lines 1 9⟩] ++
      [first, first, first, first, first, second, second, first])
    s.session.running.map (·.ticket) = some ⟨2⟩ ∧ s.calls.map (·.phase.bind Phase.guard?) =
      [none, some ⟨2⟩] := by
  decide

end CompilerRemarks.Analysis
