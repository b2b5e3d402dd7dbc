/-
  CompilerRemarks.Proofs.Process.Arrival

  What a compiler does may reach a collection in any order: its output and its
  complaints in any parts, each in order, and its exit at any time (`Arrives`).
  As long as nobody cancels, the state of the collection is told by what has
  arrived on each channel alone (`reached`), whatever the order was, and the
  exit is observed once both channels have ended (`observed?`). So the outcome
  depends on what was written and on the exit only.
-/
import CompilerRemarks.Process.Producer
import CompilerRemarks.Proofs.Remark.Chunks

namespace CompilerRemarks

namespace Collect

open Remark

/-! ## What has arrived -/

namespace Event

/-- What arrives on a channel with an event. -/
def part? (on : Channel) : Event → Option Part
  | .arrived channel part => if channel = on then some part else none
  | _ => none

/-- The exit that comes with an event. -/
def exit? : Event → Option Exit
  | .exited e => some e
  | _ => none

/-- Whether an event is the arrival of something written. -/
def isArrival : Event → Bool
  | .arrived _ _ => true
  | _ => false

/-- Whether an event interrupts a collection. -/
def isInterruption : Event → Bool
  | .cancelled => true
  | .deadline => true
  | _ => false

theorem eq_arrived_of_part? {on : Channel} {event : Event} {part : Part}
    (h : event.part? on = some part) : event = .arrived on part := by
  cases event with
  | arrived channel part' =>
    rw [part?] at h
    split at h
    · rename_i hchannel
      cases h
      rw [hchannel]
    · cases h
  | exited e => cases h
  | cancelled => cases h
  | deadline => cases h

end Event

/-- The lines that arrived on a channel, and the reader after them. -/
def readOn (on : Channel) (events : List Event) : List String × LineReader :=
  LineReader.new.takeAll (events.filterMap (·.part? on))

/-- The lines that arrived on a channel. -/
def linesOn (on : Channel) (events : List Event) : List String :=
  (readOn on events).1

/-- Whether more lines may arrive on a channel. -/
def isOpenOn (on : Channel) (events : List Event) : Bool :=
  (readOn on events).2.isOpen

/-- The exit that was observed: the first that arrived, once both channels have
    ended. -/
def observed? (events : List Event) : Option Exit :=
  if isOpenOn .output events || isOpenOn .complaints events then none
  else events.findSome? Event.exit?

/-- What a compiler writes on a channel arrives in parts, up to its end. -/
def Writes (on : Channel) (bytes : List UInt8) (events : List Event) : Prop :=
  ∃ chunks : List (List UInt8), chunks.flatten = bytes ∧
    events.filterMap (·.part? on) = chunks.map .bytes ++ [.ending]

/-- All that a compiler does arrives, in some order, and nothing interrupts it. -/
structure Arrives (stdout stderr : List UInt8) (e : Exit) (events : List Event) : Prop where
  output : Writes .output stdout events
  complaints : Writes .complaints stderr events
  rest : events.filter (!·.isArrival) = [.exited e]

/-! ### One more event -/

theorem readOn_append (on : Channel) (seen more : List Event) :
    readOn on (seen ++ more) =
      (linesOn on seen ++ ((readOn on seen).2.takeAll (more.filterMap (·.part? on))).1,
        ((readOn on seen).2.takeAll (more.filterMap (·.part? on))).2) := by
  rw [readOn, List.filterMap_append, LineReader.takeAll_append]
  rfl

theorem readOn_arrived (on : Channel) (seen : List Event) (part : Part) :
    readOn on (seen ++ [.arrived on part]) =
      (linesOn on seen ++ ((readOn on seen).2.take part).1, ((readOn on seen).2.take part).2) := by
  have hpart : [Event.arrived on part].filterMap (·.part? on) = [part] := by
    simp [Event.part?]
  rw [readOn_append, hpart, LineReader.takeAll_singleton]

theorem readOn_other {on : Channel} {event : Event} (h : event.part? on = none)
    (seen : List Event) : readOn on (seen ++ [event]) = readOn on seen := by
  have hnone : [event].filterMap (·.part? on) = [] := by
    simp [h]
  rw [readOn_append, hnone, LineReader.takeAll, List.append_nil]
  rfl

theorem linesOn_grows (on : Channel) (seen more : List Event) :
    linesOn on seen <+: linesOn on (seen ++ more) := by
  rw [linesOn, linesOn, readOn_append]
  exact List.prefix_append _ _

/-- No line arrives on a channel that has ended. -/
theorem readOn_of_ended {on : Channel} {seen : List Event} (h : isOpenOn on seen = false)
    (more : List Event) :
    linesOn on (seen ++ more) = linesOn on seen ∧ isOpenOn on (seen ++ more) = false := by
  obtain ⟨hlines, hended⟩ := LineReader.takeAll_of_closed h (more.filterMap (·.part? on))
  rw [linesOn, isOpenOn, readOn_append]
  refine ⟨?_, hended⟩
  change _ ++ _ = linesOn on seen
  rw [hlines, List.append_nil]

theorem Writes.readOn_eq {on : Channel} {bytes : List UInt8} {events : List Event}
    (h : Writes on bytes events) : readOn on events = (streamLines bytes, LineReader.closed) := by
  obtain ⟨chunks, rfl, hparts⟩ := h
  rw [readOn, hparts, LineReader.takeAll_parts]

theorem observed?_eq_some_iff {events : List Event} {e : Exit} :
    observed? events = some e ↔
      isOpenOn .output events = false ∧ isOpenOn .complaints events = false ∧
        events.findSome? Event.exit? = some e := by
  rw [observed?]
  cases isOpenOn .output events <;> cases isOpenOn .complaints events <;> simp

/-- An exit that was observed stays the one. -/
theorem observed?_append {seen : List Event} {e : Exit} (h : observed? seen = some e)
    (more : List Event) : observed? (seen ++ more) = some e := by
  obtain ⟨houtput, hcomplaints, hexit⟩ := observed?_eq_some_iff.mp h
  refine observed?_eq_some_iff.mpr ⟨?_, ?_, ?_⟩
  · exact (readOn_of_ended houtput more).2
  · exact (readOn_of_ended hcomplaints more).2
  · rw [List.findSome?_append, hexit, Option.some_or]

namespace Arrives

variable {stdout stderr : List UInt8} {e : Exit} {events : List Event}

theorem linesOn_output (h : Arrives stdout stderr e events) :
    linesOn .output events = streamLines stdout := by
  rw [linesOn, h.output.readOn_eq]

theorem linesOn_complaints (h : Arrives stdout stderr e events) :
    linesOn .complaints events = streamLines stderr := by
  rw [linesOn, h.complaints.readOn_eq]

theorem eq_exited (h : Arrives stdout stderr e events) {event : Event} (hevent : event ∈ events)
    (hrest : (!event.isArrival) = true) : event = .exited e := by
  have hmem : event ∈ events.filter (!·.isArrival) := List.mem_filter.mpr ⟨hevent, hrest⟩
  rw [h.rest] at hmem
  exact List.mem_singleton.mp hmem

theorem not_isInterruption (h : Arrives stdout stderr e events) :
    ∀ event ∈ events, event.isInterruption = false := by
  intro event hevent
  cases event with
  | arrived on part => rfl
  | exited e' => rfl
  | cancelled => cases h.eq_exited hevent rfl
  | deadline => cases h.eq_exited hevent rfl

theorem findSome?_exit? (events : List Event) :
    events.findSome? Event.exit? = (events.filter (!·.isArrival)).findSome? Event.exit? := by
  induction events with
  | nil => rfl
  | cons event rest ih =>
    cases event with
    | arrived on part => exact ih
    | exited e => rfl
    | cancelled => exact ih
    | deadline => exact ih

theorem observed?_eq (h : Arrives stdout stderr e events) : observed? events = some e := by
  refine observed?_eq_some_iff.mpr ⟨?_, ?_, ?_⟩
  · rw [isOpenOn, h.output.readOn_eq]
    rfl
  · rw [isOpenOn, h.complaints.readOn_eq]
    rfl
  · rw [findSome?_exit?, h.rest]
    rfl

end Arrives

/-! ## The state of a collection -/

variable {σ : Type} {o : Observer σ} {file : Path} {x : σ}

/-- The state of a collection that goes on, told by what has arrived. -/
def reached (o : Observer σ) (file : Path) (x : σ) (seen : List Event) : State σ where
  filter := (Filter.new file).pushAll (linesOn .output seen)
  output := (readOn .output seen).2
  errors := (readOn .complaints seen).2
  complaints := linesOn .complaints seen
  observer := (linesOn .complaints seen).foldl o.report x
  exit := seen.findSome? Event.exit?
  stop := none

/-- The observer does not cancel while it is told of some lines. -/
def Untripped (o : Observer σ) (x : σ) (lines : List String) : Prop :=
  ∀ told, told <+: lines → o.isCancelled (told.foldl o.report x) = false

theorem Untripped.of_isPrefix {lines more : List String} (h : Untripped o x more)
    (hle : lines <+: more) : Untripped o x lines :=
  fun told htold => h told (htold.trans hle)

namespace State

theorem look_of_not_cancelled {s : State σ} (h : o.isCancelled s.observer = false) :
    s.look o = s := by
  rw [look, h, Bool.and_false]
  rfl

/-- An observer who does not cancel before the last line is told of them all. -/
theorem complainAll_of_untripped {s : State σ} {lines : List String} (hstop : s.stop = none)
    (h : ∀ told line, told ++ [line] <+: lines →
      o.isCancelled (told.foldl o.report s.observer) = false) :
    lines.foldl (complain o) s =
      { s with
        observer := lines.foldl o.report s.observer
        complaints := s.complaints ++ lines } := by
  induction lines generalizing s with
  | nil => simp
  | cons line rest ih =>
    have hlook : s.look o = s := by
      refine look_of_not_cancelled (h [] line ?_)
      exact ⟨rest, rfl⟩
    have hline : s.complain o line = s.report o line := by
      rw [complain, hlook, hstop]
      rfl
    have hrest : ∀ told next, told ++ [next] <+: rest →
        o.isCancelled (told.foldl o.report (s.report o line).observer) = false := by
      intro told next htold
      exact h (line :: told) next (List.cons_prefix_cons.mpr ⟨rfl, htold⟩)
    rw [List.foldl_cons, hline, ih (s := s.report o line) hstop hrest]
    simp [report]

end State

/-! ## One event -/

/-- An event takes the state that was reached to the next. -/
theorem reached_take {seen : List Event} {event : Event}
    (hevent : event.isInterruption = false)
    (h : Untripped o x (linesOn .complaints (seen ++ [event]))) :
    (reached o file x seen).take o event = reached o file x (seen ++ [event]) := by
  cases event with
  | cancelled => cases hevent
  | deadline => cases hevent
  | exited e =>
    have houtput : readOn .output (seen ++ [.exited e]) = _ := readOn_other rfl seen
    have hcomplaints : readOn .complaints (seen ++ [.exited e]) = _ := readOn_other rfl seen
    simp only [State.take, reached, linesOn, houtput, hcomplaints, List.findSome?_append]
    rfl
  | arrived on part =>
    have hexit : (seen ++ [Event.arrived on part]).findSome? Event.exit? =
        seen.findSome? Event.exit? := by
      rw [List.findSome?_append]
      exact Option.or_none
    cases on with
    | output =>
      have hoff : readOn .complaints (seen ++ [.arrived .output part]) = _ := readOn_other rfl seen
      simp only [State.take, State.arrive, reached, linesOn, hexit, hoff, readOn_arrived,
        Filter.pushAll, List.foldl_append]
    | complaints =>
      have hoff : readOn .output (seen ++ [.arrived .complaints part]) = _ := readOn_other rfl seen
      have hon := readOn_arrived .complaints seen part
      rw [linesOn, hon] at h
      have hfree : ∀ told line, told ++ [line] <+: ((readOn .complaints seen).2.take part).1 →
          o.isCancelled (told.foldl o.report (reached o file x seen).observer) = false := by
        intro told line htold
        -- what the observer was told before comes first
        have hbefore : linesOn .complaints seen ++ told <+: _ :=
          (List.prefix_append_right_inj _).mpr ((List.prefix_append told [line]).trans htold)
        have hnot := h _ hbefore
        rw [List.foldl_append] at hnot
        exact hnot
      let s : State σ :=
        { reached o file x seen with errors := ((readOn .complaints seen).2.take part).2 }
      have hlines := State.complainAll_of_untripped (s := s) rfl hfree
      refine hlines.trans ?_
      simp only [s, reached, linesOn, hexit, hoff, hon, List.foldl_append]

/-- A collection that is not cancelled stops when the exit is observed. -/
theorem reached_settle {seen : List Event} (h : Untripped o x (linesOn .complaints seen)) :
    (reached o file x seen).settle o =
      match observed? seen with
      | some e => (reached o file x seen).takeExit o e
      | none => reached o file x seen := by
  have hlook : (reached o file x seen).look o = reached o file x seen :=
    State.look_of_not_cancelled (h _ List.prefix_rfl)
  rw [State.settle, hlook, observed?]
  change (if (false || isOpenOn .output seen || isOpenOn .complaints seen) = true then _ else _) = _
  rw [Bool.false_or]
  split
  · rfl
  · rfl

/-! ## Whole collections -/

/-- What the observer of a collection that is not interrupted is told: the
    complaints, or how the compiler failed without any. -/
def toldOf (complaints : List String) (e : Exit) : List String :=
  if complaints = [] ∧ e.isSuccess = false then [State.exitMessage e] else complaints

/-- The state of a collection that has observed the exit. -/
structure Ended (o : Observer σ) (file : Path) (x : σ) (seen : List Event) (e : Exit)
    (s : State σ) : Prop where
  stop : s.stop = some .exited
  filter : s.filter = (Filter.new file).pushAll (linesOn .output seen)
  complaints : s.complaints = toldOf (linesOn .complaints seen) e
  observer : s.observer = (toldOf (linesOn .complaints seen) e).foldl o.report x

theorem ended_takeExit (seen : List Event) (e : Exit) :
    Ended o file x seen e ((reached o file x seen).takeExit o e) := by
  have hempty : (reached o file x seen).complaints.isEmpty = (linesOn .complaints seen).isEmpty :=
    rfl
  rw [State.takeExit, hempty]
  cases hlines : linesOn .complaints seen with
  | nil =>
    cases hsuccess : e.isSuccess <;>
      exact ⟨rfl, rfl, by simp [State.report, reached, toldOf, hlines, hsuccess],
        by simp [State.report, reached, toldOf, hlines, hsuccess]⟩
  | cons line rest =>
    exact ⟨by simp, by simp [reached], by simp [reached, toldOf, hlines],
      by simp [reached, toldOf, hlines]⟩

/-- Where a collection stands after some events. -/
def Stands (o : Observer σ) (file : Path) (x : σ) (seen : List Event) (s : State σ) : Prop :=
  match observed? seen with
  | some e => Ended o file x seen e s
  | none => s = reached o file x seen

theorem State.step_of_stopped {s : State σ} (h : s.stop.isSome = true) (event : Event) :
    s.step o event = s := by
  rw [step, if_pos h]

theorem stands_step {seen : List Event} {event : Event} {s : State σ}
    (hs : Stands o file x seen s) (hevent : event.isInterruption = false)
    (h : Untripped o x (linesOn .complaints (seen ++ [event]))) :
    Stands o file x (seen ++ [event]) (s.step o event) := by
  rw [Stands] at hs
  cases hseen : observed? seen with
  | some e =>
    -- nothing that comes after the exit counts
    rw [hseen] at hs
    obtain ⟨houtput, hcomplaints, -⟩ := observed?_eq_some_iff.mp hseen
    have hstopped : s.stop.isSome = true := by
      rw [hs.stop]
      rfl
    rw [Stands, observed?_append hseen, State.step_of_stopped hstopped]
    refine ⟨hs.stop, ?_, ?_, ?_⟩
    · rw [(readOn_of_ended houtput [event]).1]
      exact hs.filter
    · rw [(readOn_of_ended hcomplaints [event]).1]
      exact hs.complaints
    · rw [(readOn_of_ended hcomplaints [event]).1]
      exact hs.observer
  | none =>
    rw [hseen] at hs
    have hstep : s.step o event = (reached o file x (seen ++ [event])).settle o := by
      rw [hs, State.step, reached_take hevent h]
      rfl
    rw [Stands, hstep, reached_settle h]
    cases observed? (seen ++ [event]) with
    | some e => exact ended_takeExit _ e
    | none => rfl

theorem stands_start (h : o.isCancelled x = false) :
    Stands o file x [] ((start file x).look o) := by
  rw [State.look_of_not_cancelled h]
  rfl

theorem stands_foldl {seen events : List Event} {s : State σ} (hs : Stands o file x seen s)
    (hevents : ∀ event ∈ events, event.isInterruption = false)
    (h : Untripped o x (linesOn .complaints (seen ++ events))) :
    Stands o file x (seen ++ events) (events.foldl (State.step o) s) := by
  induction events generalizing seen s with
  | nil =>
    rw [List.append_nil]
    exact hs
  | cons event rest ih =>
    have happend : seen ++ event :: rest = seen ++ [event] ++ rest := by simp
    rw [happend] at h ⊢
    have hfree := h.of_isPrefix (linesOn_grows .complaints (seen ++ [event]) rest)
    have hnext := stands_step hs (hevents event List.mem_cons_self) hfree
    exact ih hnext (fun event' hmem => hevents event' (List.mem_cons_of_mem _ hmem)) h

/-- A collection that nobody interrupts stands where what has arrived puts it. -/
theorem stands_of_untripped {events : List Event}
    (hevents : ∀ event ∈ events, event.isInterruption = false)
    (h : Untripped o x (linesOn .complaints events)) :
    Stands o file x events (events.foldl (State.step o) ((start file x).look o)) :=
  stands_foldl (stands_start (h [] List.nil_prefix)) hevents h

/-- The outcome of a collection that nobody interrupts. -/
theorem run_arrives {stdout stderr : List UInt8} {e : Exit} {events : List Event} (limit : Nat)
    (harrives : Arrives stdout stderr e events) (h : Untripped o x (streamLines stderr)) :
    let told := toldOf (streamLines stderr) e
    let remarks := filterLines file (streamLines stdout)
    run o limit file events x =
      (if told = [] then .completed remarks else .failed ("\n".intercalate told) remarks,
        told.foldl o.report x) := by
  intro told remarks
  rw [← harrives.linesOn_complaints] at h
  have hstands : Stands o file x events _ := stands_of_untripped harrives.not_isInterruption h
  rw [Stands, harrives.observed?_eq] at hstands
  obtain ⟨hstop, hfilter, hcomplaints, hobserver⟩ := hstands
  rw [harrives.linesOn_output] at hfilter
  rw [harrives.linesOn_complaints] at hcomplaints hobserver
  rw [run, State.conclude, hstop, hfilter, hcomplaints]
  simp only [List.isEmpty_iff]
  split
  · rw [← hobserver]
    rfl
  · rw [← hobserver]
    rfl

end Collect

namespace Producer

open Collect Remark

/-! ## Compile commands -/

/-- The shell and the compiler were found, and the shell was started. -/
structure Started (settings : Settings) (files : Files) (c : Command) (done : Process.Done) :
    Prop where
  check : check settings files c = .ok ()
  run : Process.run files settings.shell ["-c", c.withFlags settings.recordFlags]
    (some c.directory) = .ok done

variable {σ : Type} {settings : Settings} {files : Files} {c : Command} {done : Process.Done}

/-- A program that can be started in a directory is run to its end. -/
theorem exists_run {files inside : Files} {program : String} {args : List String}
    {directory : Path} {entry : Entry}
    (hnul : ((program :: args ++ [directory.text]).any fun s => s.toList.contains '\x00') = false)
    (henter : Process.enter files directory = .ok inside)
    (hstart : Process.startable inside program = .ok entry) :
    ∃ done, Process.run files program args (some directory) = .ok done := by
  rw [Process.run]
  simp only [Option.map_some, Option.toList_some, hnul, henter, bind, Except.bind, hstart]
  exact ⟨_, rfl⟩

/-- On a plain system any installed program may stand for a compiler. -/
theorem exists_started : ∃ done, Started {} .standard ⟨⟨"/"⟩, ⟨"a.c"⟩, "cat a.c"⟩ done := by
  have henter : Process.enter .standard ⟨"/"⟩ = .ok .standard := by rfl
  have hstart : Process.startable .standard "bash" = .ok (.program "bash") := by rfl
  let settings : Settings := {}
  let c : Command := ⟨⟨"/"⟩, ⟨"a.c"⟩, "cat a.c"⟩
  let args := ["-c", c.withFlags settings.recordFlags]
  have hnul : (("bash" :: args ++ ["/"]).any fun s => s.toList.contains '\x00') = false := by
    decide
  obtain ⟨done, hrun⟩ := exists_run hnul henter hstart
  exact ⟨done, by rfl, hrun⟩

/-- A command that was started is collected along the events of its compiler,
    unless there is nothing left to do from the start. -/
theorem Started.produceAlong_eq (h : Started settings files c done)
    (htime : settings.timeout ≠ some 0) {o : Observer σ} {x : σ}
    (hfree : o.isCancelled x = false) (arrival : Process.Done → List Event) (latch : Latch) :
    produceAlong arrival settings files latch c o x =
      let ran := Collect.run o (settings.timeout.getD 0) c.file (arrival done) x
      ⟨ran.1, ran.2, latch, done.files⟩ := by
  have hcut : (o.isCancelled x || settings.timeout == some 0) = false := by
    rw [hfree, Bool.false_or]
    exact beq_false_of_ne htime
  rw [produceAlong, h.check]
  simp only [h.run, hcut]
  rfl

/-- The stream of a channel. -/
def streamOf : Channel → Nat
  | .output => Emission.output
  | .complaints => Emission.errors

theorem part?_eventOf? (on : Channel) (emission : Emission) :
    (eventOf? emission).bind (·.part? on) =
      if emission.stream == streamOf on then some (.bytes emission.bytes) else none := by
  obtain ⟨stream, bytes⟩ := emission
  by_cases houtput : stream = Emission.output
  · subst houtput
    cases on <;> rfl
  · by_cases herrors : stream = Emission.errors
    · subst herrors
      cases on <;> rfl
    · cases on <;> simp [eventOf?, streamOf, houtput, herrors]

theorem filterMap_eventOf? (on : Channel) (log : List Emission) :
    (log.filterMap eventOf?).filterMap (·.part? on) =
      ((log.filter (·.stream == streamOf on)).map (·.bytes)).map .bytes := by
  rw [List.filterMap_filterMap, List.map_map, ← List.filterMap_eq_map, List.filterMap_filter]
  exact congrArg (List.filterMap · log) (funext fun emission => part?_eventOf? on emission)

theorem writes_eventsOf (on : Channel) (done : Process.Done) :
    Writes on (Emission.on (streamOf on) done.log) (eventsOf done) := by
  refine ⟨(done.log.filter (·.stream == streamOf on)).map (·.bytes), ?_, ?_⟩
  · rw [Emission.on, List.flatMap_def]
  · rw [eventsOf, List.filterMap_append, filterMap_eventOf?]
    cases on <;> rfl

/-- A process that is seen to do everything in order is one way for it to
    arrive. -/
theorem arrives_eventsOf (done : Process.Done) :
    Arrives (Emission.on Emission.output done.log) (Emission.on Emission.errors done.log)
      done.exit (eventsOf done) := by
  refine ⟨writes_eventsOf .output done, writes_eventsOf .complaints done, ?_⟩
  have hlog : (done.log.filterMap eventOf?).filter (!·.isArrival) = [] := by
    rw [List.filter_eq_nil_iff]
    intro event hevent
    obtain ⟨emission, -, hevent⟩ := List.mem_filterMap.mp hevent
    rw [eventOf?] at hevent
    split at hevent
    · cases hevent
      exact Bool.false_ne_true
    · split at hevent
      · cases hevent
        exact Bool.false_ne_true
      · cases hevent
  rw [eventsOf, List.filter_append, hlog]
  rfl

/-- Collecting from a compiler that is seen to do everything in order. -/
theorem produce_in_order {o : Observer σ} {x : σ} (h : Started settings files c done)
    (htime : settings.timeout ≠ some 0)
    (hfree : Untripped o x (streamLines (Emission.on Emission.errors done.log))) (latch : Latch) :
    let told := toldOf (streamLines (Emission.on Emission.errors done.log)) done.exit
    let remarks := filterLines c.file (streamLines (Emission.on Emission.output done.log))
    (produce settings files latch c o x).observer = told.foldl o.report x ∧
      (produce settings files latch c o x).collected =
        if told = [] then .completed remarks else .failed ("\n".intercalate told) remarks := by
  intro told remarks
  have hstart : o.isCancelled x = false := hfree [] List.nil_prefix
  rw [produce, h.produceAlong_eq htime hstart, run_arrives _ (arrives_eventsOf done) hfree]
  exact ⟨rfl, rfl⟩

/-- Whatever the order in which the output and the complaints of a compiler
    and its exit reach a collection that nobody interrupts, the observer is
    told of the complaints in order, or of an exit that failed without any; and
    the outcome has all remarks of the output. -/
theorem produceAlong_any_order (arrival : Process.Done → List Event) (settings : Settings)
    (files : Files) (latch : Latch) (c : Command) (o : Observer σ) (x : σ) (done : Process.Done)
    (stdout stderr : List UInt8) (e : Exit) (hstarted : Started settings files c done)
    (htime : settings.timeout ≠ some 0) (harrives : Arrives stdout stderr e (arrival done))
    (hfree : Untripped o x (streamLines stderr)) :
    let told := toldOf (streamLines stderr) e
    let remarks := filterLines c.file (streamLines stdout)
    produceAlong arrival settings files latch c o x =
      { collected :=
          if told = [] then .completed remarks else .failed ("\n".intercalate told) remarks
        observer := told.foldl o.report x
        latch := latch
        files := done.files } := by
  intro told remarks
  have hstart : o.isCancelled x = false := hfree [] List.nil_prefix
  rw [hstarted.produceAlong_eq htime hstart, run_arrives _ harrives hfree]

/-- The exit may come first, and the complaints before the output ends. -/
theorem produceAlong_exit_first :
    let events : List Event := [.exited (.code 0), .arrived .complaints (.bytes [119, 10]),
      .arrived .output .ending, .arrived .complaints .ending]
    let c : Command := ⟨⟨"/"⟩, ⟨"a.c"⟩, "cat a.c"⟩
    let o : Observer (List String) := ⟨fun told line => told ++ [line], fun _ => false⟩
    ∃ done, Started {} .standard c done ∧ Arrives [] [119, 10] (.code 0) events ∧
      produceAlong (fun _ => events) {} .standard .new c o [] =
        ⟨.failed "w" [], ["w"], .new, done.files⟩ := by
  intro events c o
  obtain ⟨done, hstarted⟩ := exists_started
  have harrives : Arrives [] [119, 10] (.code 0) events := by
    exact ⟨⟨[], rfl, rfl⟩, ⟨[[119, 10]], rfl, rfl⟩, rfl⟩
  refine ⟨done, hstarted, harrives, ?_⟩
  have h := produceAlong_any_order (fun _ => events) {} .standard .new c o [] done [] [119, 10]
    (.code 0) hstarted (by decide) harrives (fun _ _ => rfl)
  refine h.trans ?_
  have hlines : streamLines [119, 10] = ["w"] := by decide
  have hnone : streamLines [] = [] := by decide
  rw [hlines, hnone]
  rfl

end Producer

end CompilerRemarks
