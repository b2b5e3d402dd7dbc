/-
  CompilerRemarks.Proofs.Session.Transparency

  The cache cannot be told from its absence. A session is visited by one caller
  at a time: remarks are asked for, and files are saved. How collecting the
  remarks of a file ends may change when the file is saved, and only then
  (`Outcomes`). The invariant is that what is cached for a file is what
  collecting its remarks would give now (`Current`); a save keeps it because it
  drops what it makes out of date. So every answer is the one that a new session
  gives.
-/
import CompilerRemarks.Proofs.Session.Course

namespace CompilerRemarks.Analysis

/-! ## Visits -/

/-- An analysis that nobody disturbs and whose collection ends in a given way. -/
def conduct (q : Request) (c : Collected) (s : Session) : Option Answer × Session :=
  run q Holder.self.session Holder.self.put (fun _ s => (c, s)) s

/-- How collecting the remarks of each file ends. Paths that are the same are
    one file. -/
structure Outcomes where
  of : Path → Collected
  of_congr : ∀ f g, f.same g = true → of f = of g

/-- Another ending for a file. -/
def Outcomes.set (outcomes : Outcomes) (f : Path) (next : Collected) : Outcomes where
  of := fun g => if f.same g then next else outcomes.of g
  of_congr := by
    intro g g' hsame
    simp only [Path.same_congr_right hsame, outcomes.of_congr g g' hsame]

/-- What is done with a session. -/
inductive Visit where
  | ask (q : Request)
  /-- The file is saved, and from now on collecting its remarks ends so. -/
  | save (f : Path) (next : Collected)

/-- The answers to the questions of some visits to one session. -/
def answers (outcomes : Outcomes) (s : Session) : List Visit → List (Option Answer)
  | [] => []
  | .ask q :: rest =>
    let ended := conduct q (outcomes.of q.file) s
    ended.1 :: answers outcomes ended.2 rest
  | .save f next :: rest => answers (outcomes.set f next) (s.save f (some f)).2 rest

/-- The answers to the same questions, each put to a session of its own. -/
def freshAnswers (outcomes : Outcomes) : List Visit → List (Option Answer)
  | [] => []
  | .ask q :: rest =>
    (conduct q (outcomes.of q.file) .new).1 :: freshAnswers outcomes rest
  | .save f next :: rest => freshAnswers (outcomes.set f next) rest

/-! ## The invariant -/

/-- A session that is free, and whose cache is up to date. -/
structure Current (outcomes : Outcomes) (s : Session) : Prop where
  free : s.running = none
  cached : ∀ f rs, s.cached? f = some rs → outcomes.of f = .completed rs

theorem current_new (outcomes : Outcomes) : Current outcomes .new where
  free := rfl
  cached := fun f rs h => absurd h (by simp [Session.new, Session.cached?])

theorem current_save {outcomes : Outcomes} {s : Session} (h : Current outcomes s) (f : Path)
    (next : Collected) : Current (outcomes.set f next) (s.save f (some f)).2 where
  free := (s.save_frame f (some f)).1.trans h.free
  cached := by
    intro g rs hcached
    -- what survives the save is of another file, which is not touched by it
    obtain ⟨hbefore, hnot⟩ := (s.cached?_save f g (some f) rs).mp hcached
    have hother : ¬ f.same g = true := fun hsame => hnot ⟨hsame, Path.same_refl f⟩
    show (if f.same g then next else outcomes.of g) = .completed rs
    rw [if_neg hother]
    exact h.cached g rs hbefore

/-- What an analysis of a free session with nothing but its own file in the
    cache leaves is up to date. -/
theorem Concluded.current {outcomes : Outcomes} {q : Request} {range : Range} {a : Option Answer}
    {s : Session} (h : Concluded q range (outcomes.of q.file) a s) :
    Current outcomes s where
  free := h.free
  cached := by
    intro f rs hcached
    cases hsame : q.file.same f with
    | false =>
      rw [h.others f hsame] at hcached
      cases hcached
    | true =>
      have hfile : s.cached? q.file = s.cached? f := by
        simp only [Session.cached?, Path.same_congr_right hsame]
      rw [← hfile, h.cached] at hcached
      rw [← outcomes.of_congr q.file f hsame]
      cases hc : outcomes.of q.file with
      | completed rs' => rw [hc] at hcached; cases hcached; rfl
      | cancelled rs' => rw [hc] at hcached; cases hcached
      | failed message rs' => rw [hc] at hcached; cases hcached

/-- From a session that is up to date, an inverted range is refused, and any
    other analysis is concluded from what collecting gives now, whether it
    collects or finds it in the cache. -/
theorem conduct_cases {outcomes : Outcomes} {s : Session} (h : Current outcomes s) (q : Request) :
    let c := outcomes.of q.file
    (q.range.isInverted = true ∧
      conduct q c s = (some (.unanswerable (.inverted q.range)), s)) ∨
    (q.range.isInverted = false ∧
      Concluded q q.range c (conduct q c s).1 (conduct q c s).2) := by
  intro c
  cases hinv : q.range.isInverted with
  | true => exact Or.inl ⟨rfl, run_inverted Holder.self _ hinv⟩
  | false =>
    refine Or.inr ⟨rfl, ?_⟩
    cases hcached : s.cached? q.file with
    | none => exact run_concluded Holder.self (fun _ s => (c, s)) hinv hcached h.free [] rfl
    | some rs =>
      -- the invariant says that collecting would give what is cached
      have hhit : conduct q c s = (some (answerQuery rs q.range none), s) :=
        run_cached Holder.self _ hinv hcached
      have hc : c = .completed rs := h.cached q.file rs hcached
      rw [hhit, hc]
      constructor
      case answer => exact ⟨_, rfl, answers_query rs q.range⟩
      case free => exact h.free
      case cached => exact hcached
      case others =>
        intro f hother
        obtain ⟨cache, hcache, hfile, -⟩ := Session.cached?_eq_some_iff.mp hcached
        rw [Session.cached?, hcache]
        simp [Option.filter, Path.same_congr hfile, hother]

theorem current_conduct {outcomes : Outcomes} {s : Session} (h : Current outcomes s)
    (q : Request) : Current outcomes (conduct q (outcomes.of q.file) s).2 := by
  obtain ⟨-, heq⟩ | ⟨-, hconcluded⟩ := conduct_cases h q
  · rw [heq]
    exact h
  · exact hconcluded.current

/-- Sessions that are up to date give the same answer. -/
theorem conduct_answer_unique {outcomes : Outcomes} {s s' : Session} (h : Current outcomes s)
    (h' : Current outcomes s') (q : Request) :
    ∃ a, (conduct q (outcomes.of q.file) s).1 = some a ∧
      (conduct q (outcomes.of q.file) s').1 = some a := by
  obtain ⟨hinv, heq⟩ | ⟨hvalid, hconcluded⟩ := conduct_cases h q <;>
    obtain ⟨hinv', heq'⟩ | ⟨hvalid', hconcluded'⟩ := conduct_cases h' q
  · exact ⟨_, by rw [heq], by rw [heq']⟩
  · cases hinv.symm.trans hvalid'
  · cases hvalid.symm.trans hinv'
  · obtain ⟨a, ha, hanswers⟩ := hconcluded.answer
    obtain ⟨a', ha', hanswers'⟩ := hconcluded'.answer
    exact ⟨a, ha, by rw [ha', hanswers.unique hanswers']⟩

/-! ## Every run of visits -/

theorem answers_of_current {outcomes : Outcomes} {s : Session} (h : Current outcomes s)
    (visits : List Visit) : answers outcomes s visits = freshAnswers outcomes visits ∧
      none ∉ answers outcomes s visits := by
  induction visits generalizing outcomes s with
  | nil => exact ⟨rfl, List.not_mem_nil⟩
  | cons visit rest ih =>
    cases visit with
    | ask q =>
      obtain ⟨a, ha, hfresh⟩ := conduct_answer_unique h (current_new outcomes) q
      obtain ⟨heq, hsome⟩ := ih (current_conduct h q)
      rw [answers, freshAnswers, hfresh, ha, heq]
      refine ⟨rfl, ?_⟩
      rw [← heq, List.mem_cons, not_or]
      exact ⟨by simp, hsome⟩
    | save f next => exact ih (current_save h f next)

/-- Whatever is asked of one session and saved in between, every question is
    answered, and as by a session that is new. -/
theorem answers_as_from_new_session (outcomes : Outcomes) (visits : List Visit) :
    answers outcomes .new visits = freshAnswers outcomes visits ∧
      none ∉ answers outcomes .new visits :=
  answers_of_current (current_new outcomes) visits

-- asked twice, the second time for what is cached; then saved, and asked again
example :
    let a : Path := ⟨"a.c"⟩
    let outcomes : Outcomes := ⟨fun _ => .completed [], fun _ _ _ => rfl⟩
    answers outcomes .new [.ask ⟨a, .lines 1 9⟩, .ask ⟨a, .lines 3 4⟩, .save a (.failed "no" []),
      .ask ⟨a, .lines 1 9⟩] =
      [some (.remarks .empty), some (.remarks .empty), some (.failed "no")] := by
  decide

end CompilerRemarks.Analysis
