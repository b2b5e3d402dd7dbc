/-
  CompilerRemarks.Proofs.Process.Cancellation

  A collection that is cancelled. Until then it stands where what has arrived
  puts it, and from then on nothing changes (`foldl_step_of_stopped`). So it
  leaves the remarks of the output that had arrived, and its observer was told
  of the complaints up to the cancellation and of nothing after it.

  The observer may cancel while it is told of a line. Then the rest of the
  lines that arrived with it is not reported any more (`crossing_step`).
-/
import CompilerRemarks.Proofs.Process.Arrival

namespace CompilerRemarks

namespace Collect

open Remark

variable {σ : Type} {o : Observer σ} {file : Path} {x : σ}

/-! ## A collection that is stopped -/

namespace State

theorem look_of_stopped {s : State σ} (h : s.stop.isSome = true) : s.look o = s := by
  have hnone : s.stop.isNone = false := by
    rw [← Option.not_isSome, h]
    rfl
  rw [look, hnone]
  rfl

theorem look_of_cancelled {s : State σ} (hstop : s.stop = none)
    (h : o.isCancelled s.observer = true) : s.look o = { s with stop := some .cancelled } := by
  rw [look, hstop, h]
  rfl

theorem settle_of_stopped {s : State σ} (h : (s.look o).stop.isSome = true) :
    s.settle o = s.look o := by
  rw [settle]
  simp only [h, Bool.true_or, if_true]

/-- No line is reported once the collection is cancelled. -/
theorem complainAll_of_stopped {s : State σ} (h : (s.look o).stop.isSome = true)
    (lines : List String) : (lines.foldl (complain o) s).look o = s.look o := by
  induction lines generalizing s with
  | nil => rfl
  | cons line rest ih =>
    have hline : s.complain o line = s.look o := by
      rw [complain, if_pos h]
    have hlook : (s.look o).look o = s.look o := look_of_stopped h
    rw [List.foldl_cons, hline, ih (by rw [hlook]; exact h), hlook]

theorem foldl_step_of_stopped {s : State σ} (h : s.stop.isSome = true) (events : List Event) :
    events.foldl (step o) s = s := by
  induction events with
  | nil => rfl
  | cons event rest ih => rw [List.foldl_cons, step_of_stopped h, ih]

end State

/-- A collection that is cancelled at an event ends with what it had. -/
theorem run_of_cancelled {before after : List Event} {event : Event} {s : State σ} (limit : Nat)
    (hs : (before.foldl (State.step o) ((start file x).look o)).step o event = s)
    (hstop : s.stop = some .cancelled) :
    run o limit file (before ++ event :: after) x = (.cancelled s.filter.remarks, s.observer) := by
  have hfrozen : after.foldl (State.step o) s = s :=
    State.foldl_step_of_stopped (by rw [hstop]; rfl) after
  rw [run, List.foldl_append, List.foldl_cons, hs, hfrozen, State.conclude, hstop]

/-! ## Cancelled from outside -/

/-- A collection that goes on can be cancelled between any two events. -/
theorem run_cancelled_between {before after : List Event} (limit : Nat)
    (hbefore : ∀ event ∈ before, event.isInterruption = false)
    (hopen : observed? before = none) (h : Untripped o x (linesOn .complaints before)) :
    run o limit file (before ++ .cancelled :: after) x =
      (.cancelled (filterLines file (linesOn .output before)),
        (linesOn .complaints before).foldl o.report x) := by
  have hstands : Stands o file x before _ := stands_of_untripped hbefore h
  rw [Stands, hopen] at hstands
  let s : State σ := { reached o file x before with stop := some .cancelled }
  have hstep : (reached o file x before).step o .cancelled = s :=
    State.settle_of_stopped (o := o) (s := s) rfl
  exact run_of_cancelled limit (by rw [hstands, hstep]) rfl

/-! ## Cancelled by the observer -/

/-- The observer cancels when it is told of line `n`, or before it is told of
    any if `n` is zero. -/
structure TripsAt (o : Observer σ) (x : σ) (lines : List String) (n : Nat) : Prop where
  le_length : n ≤ lines.length
  before : ∀ k, k < n → o.isCancelled ((lines.take k).foldl o.report x) = false
  tripped : o.isCancelled ((lines.take n).foldl o.report x) = true

theorem TripsAt.untripped {lines told : List String} {n : Nat} (h : TripsAt o x lines n)
    (htold : told <+: lines) (hlt : told.length < n) : Untripped o x told := by
  intro start hstart
  have hlength : start.length < n := Nat.lt_of_le_of_lt hstart.length_le hlt
  rw [List.prefix_iff_eq_take.mp (hstart.trans htold)]
  exact h.before _ hlength

theorem take_of_isPrefix {lines told : List String} {n : Nat} (h : told <+: lines)
    (hle : n ≤ told.length) : told.take n = lines.take n := by
  obtain ⟨rest, rfl⟩ := h
  rw [List.take_append_of_le_length hle]

theorem TripsAt.of_isPrefix {lines told : List String} {n : Nat} (h : TripsAt o x lines n)
    (htold : told <+: lines) (hle : n ≤ told.length) : TripsAt o x told n := by
  refine ⟨hle, ?_, ?_⟩
  · intro k hk
    rw [take_of_isPrefix htold (by omega)]
    exact h.before k hk
  · rw [take_of_isPrefix htold hle]
    exact h.tripped

/-- The exit is not observed as long as complaints arrive. -/
theorem observed?_eq_none_of_lt {seen more : List Event}
    (h : (linesOn .complaints seen).length < (linesOn .complaints (seen ++ more)).length) :
    observed? seen = none := by
  cases hseen : observed? seen with
  | none => rfl
  | some e =>
    obtain ⟨-, hended, -⟩ := observed?_eq_some_iff.mp hseen
    rw [(readOn_of_ended hended more).1] at h
    omega

/-- Events that bring a count to `n` have one that does. -/
theorem exists_crossing {f : List Event → Nat} {n : Nat} (seen events : List Event)
    (hseen : f seen < n) (hall : n ≤ f (seen ++ events)) :
    ∃ before event after, seen ++ events = before ++ event :: after ∧
      f before < n ∧ n ≤ f (before ++ [event]) := by
  induction events generalizing seen with
  | nil =>
    rw [List.append_nil] at hall
    omega
  | cons event rest ih =>
    by_cases hnext : n ≤ f (seen ++ [event])
    · exact ⟨seen, event, rest, rfl, hseen, hnext⟩
    · have happend : seen ++ event :: rest = seen ++ [event] ++ rest := by simp
      rw [happend] at hall ⊢
      exact ih (seen ++ [event]) (by omega) hall

/-- The observer cancels at one of the lines that arrive together. -/
theorem crossing_step (file : Path) {seen : List Event} {part : Part} {n : Nat}
    (hn : (linesOn .complaints seen).length < n)
    (h : TripsAt o x (linesOn .complaints (seen ++ [.arrived .complaints part])) n) :
    ∃ s, (reached o file x seen).step o (.arrived .complaints part) = s ∧
      s.stop = some .cancelled ∧ s.filter = (reached o file x seen).filter ∧
      s.observer =
        ((linesOn .complaints (seen ++ [.arrived .complaints part])).take n).foldl o.report x := by
  let lines := ((readOn .complaints seen).2.take part).1
  let k := n - (linesOn .complaints seen).length
  have htotal : linesOn .complaints (seen ++ [.arrived .complaints part]) =
      linesOn .complaints seen ++ lines := by
    rw [linesOn, readOn_arrived]
  have htake : (linesOn .complaints seen ++ lines).take n =
      linesOn .complaints seen ++ lines.take k := by
    rw [List.take_append, List.take_of_length_le (by omega)]
  rw [htotal] at h ⊢
  let s : State σ :=
    { reached o file x seen with errors := ((readOn .complaints seen).2.take part).2 }
  let told : State σ := (lines.take k).foldl (State.complain o) s
  -- up to the line at which the observer cancels, each line is reported
  have hfree : ∀ start line, start ++ [line] <+: lines.take k →
      o.isCancelled (start.foldl o.report s.observer) = false := by
    intro start line hstart
    have hlength := hstart.length_le
    rw [List.length_append, List.length_singleton, List.length_take] at hlength
    have hlt : (linesOn .complaints seen ++ start).length < n := by
      rw [List.length_append]
      omega
    have hprefix : linesOn .complaints seen ++ start <+: linesOn .complaints seen ++ lines :=
      (List.prefix_append_right_inj _).mpr
        (((List.prefix_append start [line]).trans hstart).trans (List.take_prefix k lines))
    have hnot := h.untripped hprefix hlt _ List.prefix_rfl
    rw [List.foldl_append] at hnot
    exact hnot
  have htold : told = { s with
      observer := (lines.take k).foldl o.report s.observer
      complaints := s.complaints ++ lines.take k } := State.complainAll_of_untripped rfl hfree
  have hobserver : told.observer =
      ((linesOn .complaints seen ++ lines).take n).foldl o.report x := by
    rw [htold, htake, List.foldl_append]
    rfl
  have hlook : told.look o = { told with stop := some .cancelled } := by
    refine State.look_of_cancelled (by rw [htold]; rfl) ?_
    rw [hobserver]
    exact h.tripped
  -- and none of the rest
  have hrest : (lines.foldl (State.complain o) s).look o = told.look o := by
    have hsplit := List.take_append_drop k lines
    rw [← hsplit, List.foldl_append]
    exact State.complainAll_of_stopped (by rw [hlook]; rfl) _
  refine ⟨told.look o, ?_, ?_, ?_, ?_⟩
  · rw [← hrest]
    refine State.settle_of_stopped ?_
    change ((lines.foldl (State.complain o) s).look o).stop.isSome = true
    rw [hrest, hlook]
    rfl
  · rw [hlook]
  · rw [hlook, htold]
  · rw [hlook]
    exact hobserver

/-- A collection that its observer cancels ends with the remarks of the output
    that had arrived. -/
theorem run_cancelled_by_observer {stdout stderr : List UInt8} {e : Exit} {events : List Event}
    {n : Nat} (file : Path) (limit : Nat) (harrives : Arrives stdout stderr e events) (hn : 0 < n)
    (h : TripsAt o x (streamLines stderr) n) :
    ∃ before, before <+: events ∧
      run o limit file events x =
        (.cancelled (filterLines file (linesOn .output before)),
          ((streamLines stderr).take n).foldl o.report x) := by
  rw [← harrives.linesOn_complaints] at h ⊢
  -- the event with which line `n` arrives
  obtain ⟨before, event, after, hevents, hlt, hle⟩ :=
    exists_crossing (f := fun seen => (linesOn .complaints seen).length) [] events hn h.le_length
  rw [List.nil_append] at hevents
  subst hevents
  have hmore : before ++ event :: after = before ++ [event] ++ after := by simp
  have hbefore := linesOn_grows .complaints before (event :: after)
  have hopen : observed? before = none :=
    observed?_eq_none_of_lt (Nat.lt_of_lt_of_le hlt h.le_length)
  have hnot : ∀ event' ∈ before, event'.isInterruption = false := fun event' hmem =>
    harrives.not_isInterruption event' (List.mem_append_left _ hmem)
  have hstands : Stands o file x before _ := stands_of_untripped hnot (h.untripped hbefore hlt)
  rw [Stands, hopen] at hstands
  -- only a complaint brings a line of complaint
  obtain ⟨part, rfl⟩ : ∃ part, event = .arrived .complaints part := by
    cases hpart : event.part? .complaints with
    | none =>
      rw [linesOn, readOn_other hpart] at hle
      exact absurd hle (Nat.not_le_of_lt hlt)
    | some part => exact ⟨part, Event.eq_arrived_of_part? hpart⟩
  have hgrows := linesOn_grows .complaints (before ++ [.arrived .complaints part]) after
  rw [← hmore] at hgrows
  obtain ⟨s, hstep, hstop, hfilter, hobserver⟩ :=
    crossing_step file hlt (h.of_isPrefix hgrows hle)
  refine ⟨before, List.prefix_append _ _, ?_⟩
  rw [run_of_cancelled limit (by rw [hstands, hstep]) hstop, hfilter, hobserver,
    take_of_isPrefix hgrows hle]
  rfl

end Collect

namespace Producer

open Collect Remark

/-! ## Compile commands -/

variable {σ : Type} {settings : Settings} {files : Files} {c : Command} {done : Process.Done}
  {o : Observer σ} {x : σ} {stdout stderr : List UInt8} {e : Exit}

/-- A command that is cancelled from the start is not collected. -/
theorem Started.produceAlong_of_cancelled (h : Started settings files c done)
    (hcancelled : o.isCancelled x = true) (arrival : Process.Done → List Event) (latch : Latch) :
    produceAlong arrival settings files latch c o x = ⟨.cancelled [], x, latch, files⟩ := by
  have hlook : (start c.file x).look o = { start c.file x with stop := some .cancelled } :=
    State.look_of_cancelled rfl hcancelled
  rw [produceAlong, h.check]
  simp only [h.run, hcancelled, Bool.true_or, if_true, Collect.run, hlook]
  rfl

/-- A command that its observer cancels ends with the remarks of the output
    that had arrived. -/
theorem Started.produceAlong_of_tripsAt {events : List Event} {n : Nat}
    (h : Started settings files c done) (htime : settings.timeout ≠ some 0)
    (harrives : Arrives stdout stderr e events) (htrips : TripsAt o x (streamLines stderr) n)
    (latch : Latch) :
    ∃ before, before <+: events ∧
      let cut := produceAlong (fun _ => events) settings files latch c o x
      cut.collected = .cancelled (filterLines c.file (linesOn .output before)) ∧
      cut.observer = ((streamLines stderr).take n).foldl o.report x := by
  rcases Nat.eq_zero_or_pos n with rfl | hn
  · -- cancelled before anything is seen
    have hstart : o.isCancelled x = true := htrips.tripped
    refine ⟨[], List.nil_prefix, ?_⟩
    rw [h.produceAlong_of_cancelled hstart]
    exact ⟨rfl, rfl⟩
  · have hstart : o.isCancelled x = false := htrips.before 0 hn
    obtain ⟨before, hbefore, hrun⟩ :=
      run_cancelled_by_observer c.file (settings.timeout.getD 0) harrives hn htrips
    refine ⟨before, hbefore, ?_⟩
    rw [h.produceAlong_eq htime hstart, hrun]
    exact ⟨rfl, rfl⟩

theorem isPrefix_toldOf {calls lines : List String} (h : calls <+: lines) (e : Exit) :
    calls <+: toldOf lines e := by
  rw [toldOf]
  split
  · rename_i hnone
    rw [hnone.1] at h
    rw [List.prefix_nil.mp h]
    exact List.nil_prefix
  · exact h

/-- What the same command gives when it is not cancelled. -/
theorem Started.produceAlong_of_untripped {events : List Event}
    (h : Started settings files c done) (htime : settings.timeout ≠ some 0)
    (harrives : Arrives stdout stderr e events) (hfree : Untripped o x (streamLines stderr))
    (latch : Latch) :
    let full := produceAlong (fun _ => events) settings files latch c o x
    full.observer = (toldOf (streamLines stderr) e).foldl o.report x ∧
      full.collected.remarks = filterLines c.file (streamLines stdout) := by
  have hstart : o.isCancelled x = false := hfree [] List.nil_prefix
  rw [h.produceAlong_eq htime hstart, run_arrives _ harrives hfree]
  refine ⟨rfl, ?_⟩
  dsimp only
  split <;> rfl

/-- Whenever a compile command is cancelled before its exit is observed, by the
    observer who is told of line `n`, or by somebody else between two events,
    it ends as cancelled: with remarks that the same command gives first when
    it is not cancelled, and with an observer who was told of the complaints up
    to then only. -/
theorem produceAlong_cut_short (settings : Settings) (files : Files) (latch : Latch) (c : Command)
    (o : Observer σ) (x : σ) (done : Process.Done) (stdout stderr : List UInt8) (e : Exit)
    (events : List Event) (hstarted : Started settings files c done)
    (htime : settings.timeout ≠ some 0) (harrives : Arrives stdout stderr e events) :
    let along := fun (o : Observer σ) (events : List Event) =>
      produceAlong (fun _ => events) settings files latch c o x
    let full := along { o with isCancelled := fun _ => false } events
    let told := toldOf (streamLines stderr) e
    full.observer = told.foldl o.report x ∧
    (∀ n, TripsAt o x (streamLines stderr) n →
      let cut := along o events
      let calls := (streamLines stderr).take n
      (∃ p, cut.collected = .cancelled p ∧ p <+: full.collected.remarks) ∧
      cut.observer = calls.foldl o.report x ∧ calls <+: told ∧ calls.length = n) ∧
    (∀ before after, events = before ++ after → observed? before = none →
      Untripped o x (linesOn .complaints before) →
      let cut := along o (before ++ .cancelled :: after)
      let p := filterLines c.file (linesOn .output before)
      let calls := linesOn .complaints before
      cut.collected = .cancelled p ∧ p <+: full.collected.remarks ∧
      cut.observer = calls.foldl o.report x ∧ calls <+: told) := by
  intro along full told
  let free : Observer σ := { o with isCancelled := fun _ => false }
  obtain ⟨hobserver, hremarks⟩ := hstarted.produceAlong_of_untripped (o := free) (x := x) htime
    harrives (fun _ _ => rfl) latch
  have hgrows : ∀ before, before <+: events →
      filterLines c.file (linesOn .output before) <+: full.collected.remarks := by
    rintro before ⟨after, rfl⟩
    rw [hremarks, ← harrives.linesOn_output]
    exact filterLines_grows c.file (linesOn_grows .output before after)
  refine ⟨hobserver, ?_, ?_⟩
  · intro n htrips cut calls
    obtain ⟨before, hbefore, hcollected, hcut⟩ :=
      hstarted.produceAlong_of_tripsAt htime harrives htrips latch
    have hcalls : calls <+: told := isPrefix_toldOf (List.take_prefix n _) e
    have hlength : calls.length = n := List.length_take_of_le htrips.le_length
    exact ⟨⟨_, hcollected, hgrows before hbefore⟩, hcut, hcalls, hlength⟩
  · intro before after hevents hopen huntripped cut p calls
    subst hevents
    have hstart : o.isCancelled x = false := huntripped [] List.nil_prefix
    have hnot : ∀ event ∈ before, event.isInterruption = false := fun event hevent =>
      harrives.not_isInterruption event (List.mem_append_left _ hevent)
    have hcut : cut = _ :=
      hstarted.produceAlong_eq htime hstart (fun _ => before ++ .cancelled :: after) latch
    rw [run_cancelled_between _ hnot hopen huntripped] at hcut
    have hcalls : calls <+: streamLines stderr := by
      rw [← harrives.linesOn_complaints]
      exact linesOn_grows .complaints before after
    exact ⟨by rw [hcut], hgrows before (List.prefix_append _ _), by rw [hcut],
      isPrefix_toldOf hcalls e⟩

/-- Two lines of complaint arrive together, and the observer cancels at the
    first; or somebody cancels before they arrive. -/
theorem produceAlong_cut_at_first_line :
    let events : List Event := [.exited (.code 1), .arrived .complaints (.bytes [119, 10, 118, 10]),
      .arrived .complaints .ending, .arrived .output .ending]
    let c : Command := ⟨⟨"/"⟩, ⟨"a.c"⟩, "cat a.c"⟩
    let o : Observer (List String) :=
      ⟨fun told line => told ++ [line], fun told => told.length == 1⟩
    let along := fun (events : List Event) =>
      produceAlong (fun _ => events) {} .standard .new c o []
    (∃ done, Started {} .standard c done) ∧ Arrives [] [119, 10, 118, 10] (.code 1) events ∧
      TripsAt o [] ["w", "v"] 1 ∧
      (∃ p, (along events).collected = .cancelled p) ∧ (along events).observer = ["w"] ∧
      (along (.exited (.code 1) :: .cancelled :: events.tail)).collected = .cancelled [] ∧
      (along (.exited (.code 1) :: .cancelled :: events.tail)).observer = [] := by
  intro events c o along
  obtain ⟨done, hstarted⟩ := exists_started
  have harrives : Arrives [] [119, 10, 118, 10] (.code 1) events :=
    ⟨⟨[], rfl, rfl⟩, ⟨[[119, 10, 118, 10]], rfl, rfl⟩, rfl⟩
  have hlines : streamLines [119, 10, 118, 10] = ["w", "v"] := by decide
  have htrips : TripsAt o [] ["w", "v"] 1 := by
    refine ⟨by decide, ?_, rfl⟩
    intro k hk
    have hzero : k = 0 := by omega
    rw [hzero]
    rfl
  have huntripped : Untripped o [] (linesOn .complaints [.exited (.code 1)]) := by
    intro told htold
    rw [List.prefix_nil.mp htold]
    rfl
  obtain ⟨-, hobserver, hbetween⟩ := produceAlong_cut_short {} .standard .new c o [] done []
    [119, 10, 118, 10] (.code 1) events hstarted (by decide) harrives
  rw [hlines] at hobserver
  obtain ⟨⟨p, hp, -⟩, hw, -⟩ := hobserver 1 htrips
  obtain ⟨hbefore, -, hnone, -⟩ :=
    hbetween [.exited (.code 1)] events.tail rfl (by decide) huntripped
  exact ⟨⟨done, hstarted⟩, harrives, htrips, ⟨p, hp⟩, hw, hbefore, hnone⟩

end Producer

end CompilerRemarks
