/-
  CompilerRemarks.Proofs.Process.Reports

  What the observer of a collection hears. Whatever happens to the compiler,
  and in whatever order, its observer is told of the complaints one by one and
  of nothing else (`Told`): so all that a collection does to the observer is
  what the observer does itself when a line is reported.
-/
import CompilerRemarks.Process.Producer

namespace CompilerRemarks

namespace Collect

variable {σ : Type} {o : Observer σ}

/-- Between two states of a collection the observer was told, in order, of the
    complaints that were added. -/
def Told (o : Observer σ) (s s' : State σ) : Prop :=
  ∃ lines, s'.complaints = s.complaints ++ lines ∧
    s'.observer = lines.foldl o.report s.observer

namespace Told

theorem of_silent {s s' : State σ} (hcomplaints : s'.complaints = s.complaints)
    (hobserver : s'.observer = s.observer) : Told o s s' :=
  ⟨[], by rw [hcomplaints, List.append_nil], hobserver⟩

theorem refl (s : State σ) : Told o s s :=
  of_silent rfl rfl

theorem trans {s s' s'' : State σ} (h : Told o s s') (h' : Told o s' s'') : Told o s s'' := by
  obtain ⟨lines, hcomplaints, hobserver⟩ := h
  obtain ⟨lines', hcomplaints', hobserver'⟩ := h'
  refine ⟨lines ++ lines', ?_, ?_⟩
  · rw [hcomplaints', hcomplaints, List.append_assoc]
  · rw [hobserver', hobserver, List.foldl_append]

theorem foldl {α : Type} {f : State σ → α → State σ} (h : ∀ s x, Told o s (f s x)) (xs : List α)
    (s : State σ) : Told o s (xs.foldl f s) := by
  induction xs generalizing s with
  | nil => exact refl s
  | cons x rest ih => exact (h s x).trans (ih (f s x))

end Told

namespace State

/-! ## Events -/

theorem told_look (s : State σ) : Told o s (s.look o) := by
  rw [look]
  split <;> exact .of_silent rfl rfl

theorem told_report (s : State σ) (line : String) : Told o s (s.report o line) :=
  ⟨[line], rfl, rfl⟩

theorem told_complain (s : State σ) (line : String) : Told o s (s.complain o line) := by
  refine (told_look s).trans ?_
  rw [complain]
  split
  · exact .refl _
  · exact told_report _ line

theorem told_take (s : State σ) (event : Event) : Told o s (s.take o event) := by
  cases event with
  | arrived on part =>
    cases on with
    | output => exact .of_silent rfl rfl
    | complaints => exact Told.trans (.of_silent rfl rfl) (.foldl told_complain _ _)
  | exited e => exact .of_silent rfl rfl
  | cancelled => exact .of_silent rfl rfl
  | deadline => exact .of_silent rfl rfl

theorem told_takeExit (s : State σ) (e : Exit) : Told o s (s.takeExit o e) := by
  rw [takeExit]
  split
  · exact (told_report s _).trans (.of_silent rfl rfl)
  · exact .of_silent rfl rfl

theorem told_settle (s : State σ) : Told o s (s.settle o) := by
  refine (told_look s).trans ?_
  rw [settle]
  split
  · exact .refl _
  · split
    · exact told_takeExit _ _
    · exact .refl _

/-! ## Whole collections -/

theorem told_step (s : State σ) (event : Event) : Told o s (s.step o event) := by
  rw [step]
  split
  · exact .refl s
  · exact (told_take s event).trans (told_settle _)

theorem told_conclude (s : State σ) (limit : Nat) : Told o s (s.conclude o limit).2 := by
  rw [conclude]
  split
  · exact .refl _
  · exact told_report _ _
  · split <;> exact .refl _

end State

theorem run_told (o : Observer σ) (limit : Nat) (file : Path) (events : List Event) (x : σ) :
    ∃ lines : List String, (run o limit file events x).2 = lines.foldl o.report x := by
  have hstart := State.told_look (o := o) (start file x)
  have hevents := hstart.trans (Told.foldl State.told_step events _)
  obtain ⟨lines, -, hobserver⟩ := hevents.trans (State.told_conclude _ limit)
  exact ⟨lines, hobserver⟩

end Collect

/-- All that collecting the remarks of a compile command does to its observer
    is to report some lines. -/
theorem Producer.produce_told {σ : Type} (settings : Settings) (files : Files) (latch : Latch)
    (c : Command) (o : Observer σ) (x : σ) :
    ∃ lines : List String,
      (produce settings files latch c o x).observer = lines.foldl o.report x := by
  rw [produce, produceAlong]
  split
  · rename_i f _
    exact ⟨[f.message], rfl⟩
  · split
    · exact ⟨[_], rfl⟩
    · exact Collect.run_told o _ c.file _ x

end CompilerRemarks
