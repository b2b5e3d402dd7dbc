/-
  CompilerRemarks.Proofs.Process.Observers

  A collection asks its observer one thing only, whether it was cancelled. Two
  observers that answer alike, one of which sees what the other sees and perhaps
  more (`Observer.Follows`), therefore make no difference to it: a step of the one
  collection is a step of the other (`State.step_map`), so both come to the same
  end (`run_map`, `Producer.produceAlong_map`).

  If the observer never says so and no event does, a collection is not cancelled:
  no step stops it that way (`State.step_ne_cancelled`), so no run ends that way
  (`Producer.produceAlong_ne_cancelled`).
-/
import CompilerRemarks.Proofs.Process.Arrival

namespace CompilerRemarks

variable {σ τ : Type}

/-- The second observer does in the image of a state what the first does in the
    state. -/
structure Observer.Follows (o : Observer σ) (o' : Observer τ) (f : σ → τ) : Prop where
  report : ∀ x line, o'.report (f x) line = f (o.report x line)
  isCancelled : ∀ x, o'.isCancelled (f x) = o.isCancelled x

namespace Collect

namespace State

variable {o : Observer σ} {o' : Observer τ} {f : σ → τ}

/-- The same state, seen by another observer. -/
def map (f : σ → τ) (s : State σ) : State τ :=
  ⟨s.filter, s.output, s.errors, s.complaints, f s.observer, s.exit, s.stop⟩

@[simp] theorem stop_map (s : State σ) : (s.map f).stop = s.stop := rfl

@[simp] theorem complaints_map (s : State σ) : (s.map f).complaints = s.complaints := rfl

/-! ## One event -/

theorem look_map (h : o.Follows o' f) (s : State σ) : (s.map f).look o' = (s.look o).map f := by
  have hasked : o'.isCancelled (s.map f).observer = o.isCancelled s.observer :=
    h.isCancelled s.observer
  rw [look, look, hasked, stop_map]
  split <;> rfl

theorem report_map (h : o.Follows o' f) (s : State σ) (line : String) :
    (s.map f).report o' line = (s.report o line).map f := by
  have hreport : o'.report (s.map f).observer line = f (o.report s.observer line) :=
    h.report s.observer line
  rw [report, report, hreport]
  rfl

theorem complain_map (h : o.Follows o' f) (s : State σ) (line : String) :
    (s.map f).complain o' line = (s.complain o line).map f := by
  simp only [complain, look_map h, stop_map]
  split
  · rfl
  · exact report_map h _ line

theorem arrive_map (h : o.Follows o' f) (s : State σ) (part : Remark.Part) (on : Channel) :
    (s.map f).arrive o' part on = (s.arrive o part on).map f := by
  cases on with
  | output => rfl
  | complaints =>
    -- the complaints that the part completes come one by one
    have hlines : ∀ (lines : List String) (s : State σ),
        lines.foldl (complain o') (s.map f) = (lines.foldl (complain o) s).map f := by
      intro lines
      induction lines with
      | nil => exact fun s => rfl
      | cons line rest ih =>
        intro s
        rw [List.foldl_cons, List.foldl_cons, complain_map h, ih]
    exact hlines _ { s with errors := (s.errors.take part).2 }

theorem take_map (h : o.Follows o' f) (s : State σ) (event : Event) :
    (s.map f).take o' event = (s.take o event).map f := by
  cases event with
  | arrived on part => exact arrive_map h s part on
  | exited e => rfl
  | cancelled => rfl
  | deadline => rfl

theorem takeExit_map (h : o.Follows o' f) (s : State σ) (e : Exit) :
    (s.map f).takeExit o' e = (s.takeExit o e).map f := by
  rw [takeExit, takeExit, complaints_map]
  split
  · rw [report_map h]
    rfl
  · rfl

theorem settle_map (h : o.Follows o' f) (s : State σ) :
    (s.map f).settle o' = (s.settle o).map f := by
  rw [settle, settle, look_map h]
  -- from here on the observer is only told of the exit
  generalize s.look o = looked
  have hwaits : ((looked.map f).stop.isSome || (looked.map f).output.isOpen ||
      (looked.map f).errors.isOpen) =
        (looked.stop.isSome || looked.output.isOpen || looked.errors.isOpen) := rfl
  have hexit : (looked.map f).exit = looked.exit := rfl
  rw [hwaits, hexit]
  split
  · rfl
  · cases looked.exit with
    | none => rfl
    | some e => exact takeExit_map h looked e

theorem step_map (h : o.Follows o' f) (s : State σ) (event : Event) :
    (s.map f).step o' event = (s.step o event).map f := by
  rw [step, step, stop_map, take_map h, settle_map h]
  split <;> rfl

/-! ## Whole collections -/

theorem foldl_step_map (h : o.Follows o' f) (events : List Event) (s : State σ) :
    events.foldl (step o') (s.map f) = (events.foldl (step o) s).map f := by
  induction events generalizing s with
  | nil => rfl
  | cons event rest ih => rw [List.foldl_cons, List.foldl_cons, step_map h, ih]

theorem conclude_map (h : o.Follows o' f) (s : State σ) (limit : Nat) :
    (s.map f).conclude o' limit = ((s.conclude o limit).1, (s.conclude o limit).2.map f) := by
  rw [conclude, conclude, stop_map, complaints_map]
  split
  · rfl
  · simp only [report_map h]
    rfl
  · split <;> rfl

end State

theorem run_map {o : Observer σ} {o' : Observer τ} {f : σ → τ} (h : o.Follows o' f) (limit : Nat)
    (file : Path) (events : List Event) (x : σ) :
    run o' limit file events (f x) =
      ((run o limit file events x).1, f (run o limit file events x).2) := by
  have hstart : start file (f x) = (start file x).map f := rfl
  rw [run, run, hstart, State.look_map h, State.foldl_step_map h, State.conclude_map h]
  rfl

end Collect

/-! ## Without a cancellation -/

/-- An observer who never cancels. -/
def Observer.Never (o : Observer σ) : Prop :=
  ∀ x, o.isCancelled x = false

namespace Collect

namespace State

variable {o : Observer σ} {s : State σ}

theorem stop_complain (h : o.Never) (s : State σ) (line : String) :
    (s.complain o line).stop = s.stop := by
  rw [complain, look_of_not_cancelled (h s.observer)]
  split <;> rfl

theorem take_ne_cancelled (h : o.Never) (hs : s.stop ≠ some .cancelled) {event : Event}
    (hevent : event ≠ .cancelled) : (s.take o event).stop ≠ some .cancelled := by
  cases event with
  | arrived on part =>
    cases on with
    | output => exact hs
    | complaints =>
      have hlines : ∀ (lines : List String) (s : State σ),
          (lines.foldl (complain o) s).stop = s.stop := by
        intro lines
        induction lines with
        | nil => exact fun s => rfl
        | cons line rest ih => exact fun s => (ih _).trans (stop_complain h s line)
      have hstop : (s.take o (.arrived .complaints part)).stop = s.stop := hlines _ _
      rw [hstop]
      exact hs
  | exited e => exact hs
  | cancelled => exact absurd rfl hevent
  | deadline =>
    have hstop : (s.take o .deadline).stop = some .timedOut := rfl
    rw [hstop]
    decide

theorem stop_takeExit (s : State σ) (e : Exit) : (s.takeExit o e).stop = some .exited := rfl

theorem settle_ne_cancelled (h : o.Never) (hs : s.stop ≠ some .cancelled) :
    (s.settle o).stop ≠ some .cancelled := by
  rw [settle, look_of_not_cancelled (h s.observer)]
  split
  · exact hs
  · split
    · rw [stop_takeExit]
      decide
    · exact hs

/-- The invariant: no step stops the collection as cancelled. -/
theorem step_ne_cancelled (h : o.Never) (hs : s.stop ≠ some .cancelled) {event : Event}
    (hevent : event ≠ .cancelled) : (s.step o event).stop ≠ some .cancelled := by
  rw [step]
  split
  · exact hs
  · exact settle_ne_cancelled h (take_ne_cancelled h hs hevent)

theorem foldl_step_ne_cancelled (h : o.Never) {events : List Event} (hevents : .cancelled ∉ events)
    (hs : s.stop ≠ some .cancelled) : (events.foldl (step o) s).stop ≠ some .cancelled := by
  induction events generalizing s with
  | nil => exact hs
  | cons event rest ih =>
    have hevent : event ≠ .cancelled := fun heq => hevents (heq ▸ List.mem_cons_self)
    have hrest : Event.cancelled ∉ rest := fun hmem => hevents (List.mem_cons_of_mem event hmem)
    exact ih hrest (step_ne_cancelled h hs hevent)

theorem conclude_ne_cancelled (hs : s.stop ≠ some .cancelled) (limit : Nat)
    (remarks : List Remark) : (s.conclude o limit).1 ≠ .cancelled remarks := by
  rw [conclude]
  split
  · rename_i hstop
    exact absurd hstop hs
  · intro heq
    cases heq
  · split
    · intro heq
      cases heq
    · intro heq
      cases heq

end State

theorem run_ne_cancelled {o : Observer σ} (h : o.Never) (limit : Nat) (file : Path)
    {events : List Event} (hevents : .cancelled ∉ events) (x : σ) (remarks : List Remark) :
    (run o limit file events x).1 ≠ .cancelled remarks := by
  have hstart : (start file x).look o = start file x := State.look_of_not_cancelled (h x)
  have hopen : (start file x).stop ≠ some .cancelled := by
    have hnone : (start file x).stop = none := rfl
    rw [hnone]
    decide
  rw [run, hstart]
  exact State.conclude_ne_cancelled (State.foldl_step_ne_cancelled h hevents hopen) limit remarks

end Collect

/-! ## Compile commands -/

namespace Producer

/-- The same end, with another observer. -/
def Outcome.map (f : σ → τ) (r : Outcome σ) : Outcome τ :=
  ⟨r.collected, f r.observer, r.latch, r.files⟩

/-- The remarks of a compile command are collected in the same way for both
    observers. -/
theorem produceAlong_map {o : Observer σ} {o' : Observer τ} {f : σ → τ} (h : o.Follows o' f)
    (arrival : Process.Done → List Collect.Event) (settings : Settings) (files : Files)
    (latch : Latch) (c : Command) (x : σ) :
    produceAlong arrival settings files latch c o' (f x) =
      (produceAlong arrival settings files latch c o x).map f := by
  have hrefuse : ∀ failure : Failure,
      refuse o' (f x) latch files failure = (refuse o x latch files failure).map f := by
    intro failure
    rw [refuse, refuse, h.report]
    rfl
  rw [produceAlong, produceAlong]
  split
  · exact hrefuse _
  · split
    · exact hrefuse _
    · simp only [h.isCancelled, Collect.run_map h]
      rfl

/-- Nobody cancels the collection of a compile command whose observer never does
    and whose events never say so. -/
theorem produceAlong_ne_cancelled {o : Observer σ} (h : o.Never)
    {arrival : Process.Done → List Collect.Event}
    (harrival : ∀ done, Collect.Event.cancelled ∉ arrival done) (settings : Settings)
    (files : Files) (latch : Latch) (c : Command) (x : σ) (remarks : List Remark) :
    (produceAlong arrival settings files latch c o x).collected ≠ .cancelled remarks := by
  have hrefuse : ∀ f : Failure,
      (refuse o x latch files f).collected ≠ .cancelled remarks := by
    intro f heq
    cases heq
  rw [produceAlong]
  split
  · exact hrefuse _
  · split
    · exact hrefuse _
    · refine Collect.run_ne_cancelled h _ c.file ?_ x remarks
      split
      · decide
      · exact harrival _

theorem cancelled_notMem_eventsOf (done : Process.Done) :
    Collect.Event.cancelled ∉ eventsOf done := by
  intro hmem
  have hquiet := (arrives_eventsOf done).not_isInterruption _ hmem
  cases hquiet

end Producer

end CompilerRemarks
