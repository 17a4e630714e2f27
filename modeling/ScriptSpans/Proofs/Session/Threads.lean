import ScriptSpans.Proofs.Session

namespace ScriptSpans.Session

variable {α : Type}

mutual

/-- What a step puts into the shared place, in order of time. The standard choice empties the place,
and a choice whose settings are refused is not put there. -/
def Step.installs : Step α → List (Option Highlighter)
  | .install .standard => [none]
  | .install (.given h) => [some h]
  | .install (.builtIn none classes) => [some (.builtIn ⟨none, classes⟩)]
  | .install (.builtIn (some settings) classes) =>
    match Config.ofMembers settings with
    | .ok config => [some (.builtIn ⟨some config, classes⟩)]
    | .error _ => []
  | .thread steps => installs steps
  | _ => []
termination_by structural step => step

def installs : List (Step α) → List (Option Highlighter)
  | [] => []
  | step :: later => step.installs ++ installs later
termination_by structural steps => steps

end

mutual

/-- What an answer tells of the configuration in force: the answers to reads and to operations, also
those that were given in a thread. -/
def Step.readings : Step α → Except Failure (Answer α) → List (Except Failure (Answer α))
  | .current, answer => [answer]
  | .operation _, answer => [answer]
  | .thread steps, .ok (.thread answers) => readings steps answers
  | _, _ => []
termination_by structural step => step

def readings : List (Step α) → List (Except Failure (Answer α)) → List (Except Failure (Answer α))
  | step :: later, answer :: answers => step.readings answer ++ readings later answers
  | _, _ => []
termination_by structural steps => steps

end

theorem step_thread (s : Session) (steps : List (Step α)) :
    s.step (.thread steps) = (.ok (.thread (s.fork.answers steps)), s.join (s.fork.final steps)) :=
      rfl

theorem step_leaves (s : Session) :
    s.step (.leave : Step α) = (s.pop.map (fun _ ↦ .done), s.pop.toOption.getD s) ∧
      s.step (.leaveByError : Step α) = (s.pop.map (fun _ ↦ .swallowed false),
        s.pop.toOption.getD s) := by
  simp only [Session.step]
  cases s.pop <;> exact ⟨rfl, rfl⟩

mutual

theorem step_installed (s : Session) (step : Step α) :
    (s.step step).2.installed = step.installs.getLast?.getD s.installed := by
  cases step with
  | install choice =>
    cases choice with
    | standard | given => rfl
    | builtIn settings classes =>
      cases settings with
      | none => rfl
      | some settings =>
        simp only [Session.step, Step.installs, Choice.highlighter]
        cases Config.ofMembers settings <;> rfl
  | thread steps => exact final_installed s.fork steps
  | set settings =>
    rw [Session.step]
    cases Config.ofMembers settings <;> rfl
  | enter settings =>
    rw [Session.step]
    cases Config.ofMembers settings <;> rfl
  | leave | leaveByError =>
    rw [Session.step, pop]
    cases s.saved <;> rfl
  | supports language =>
    rw [Session.step]
    cases s.highlighter.supports? language <;> rfl
  | current | reset | hasHighlighter | block | takeLog | operation => rfl
termination_by structural step

/-- After a run the place holds what was put there last, or else what it held before. -/
theorem final_installed (s : Session) (steps : List (Step α)) :
    (s.final steps).installed = (installs steps).getLast?.getD s.installed := by
  cases steps with
  | nil => rfl
  | cons step later =>
    have hlater := final_installed (s.step step).2 later
    rw [final_cons, hlater, step_installed s step, installs, List.getLast?_append]
    cases (installs later).getLast? <;> rfl
termination_by structural steps

end

/-- Two sessions in which a thread is under the same configuration and in the same contexts. -/
structure Agree (s t : Session) : Prop where
  active : s.active = t.active
  saved : s.saved = t.saved

theorem Agree.pop {s t : Session} (h : Agree s t) :
    Agree (s.pop.toOption.getD s) (t.pop.toOption.getD t) := by
  rw [Session.pop, Session.pop, ← h.saved]
  cases s.saved with
  | nil => exact h
  | cons config saved => exact ⟨rfl, rfl⟩

theorem agree_fork (s t : Session) : Agree s.fork t.fork := ⟨rfl, rfl⟩

theorem Agree.join {s t : Session} (h : Agree s t) (other another : Session) :
    Agree (s.join other) (t.join another) :=
  ⟨h.active, h.saved⟩

mutual

theorem Agree.step {s t : Session} (h : Agree s t) (step : Step α) :
    Agree (s.step step).2 (t.step step).2 ∧
      step.readings (s.step step).1 = step.readings (t.step step).1 := by
  cases step with
  | current =>
    refine ⟨h, ?_⟩
    simp only [Session.step, Step.readings, h.active]
  | operation run =>
    refine ⟨⟨h.active, h.saved⟩, ?_⟩
    simp only [Session.step, perform, Step.readings, h.active]
  | thread steps =>
    rw [step_thread, step_thread]
    exact ⟨h.join _ _, ((agree_fork s t).run steps).2⟩
  | set settings =>
    rw [Session.step, Session.step]
    cases Config.ofMembers settings with
    | error e => exact ⟨h, rfl⟩
    | ok config => exact ⟨⟨rfl, h.saved⟩, rfl⟩
  | reset => exact ⟨⟨rfl, h.saved⟩, rfl⟩
  | enter settings =>
    rw [Session.step, Session.step]
    cases Config.ofMembers settings with
    | error e => exact ⟨h, rfl⟩
    | ok config => exact ⟨⟨rfl, by simp only [h.active, h.saved]⟩, rfl⟩
  | leave =>
    rw [(step_leaves s).1, (step_leaves t).1]
    exact ⟨h.pop, rfl⟩
  | leaveByError =>
    rw [(step_leaves s).2, (step_leaves t).2]
    exact ⟨h.pop, rfl⟩
  | install choice =>
    rw [Session.step, Session.step]
    cases choice.highlighter with
    | error e => exact ⟨h, rfl⟩
    | ok installed => exact ⟨⟨h.active, h.saved⟩, rfl⟩
  | supports language =>
    rw [Session.step, Session.step]
    refine ⟨?_, rfl⟩
    cases s.highlighter.supports? language <;> cases t.highlighter.supports? language <;> exact h
  | hasHighlighter => exact ⟨h, rfl⟩
  | block request => exact ⟨⟨h.active, h.saved⟩, rfl⟩
  | takeLog => exact ⟨⟨h.active, h.saved⟩, rfl⟩
termination_by structural step

theorem Agree.run {s t : Session} (h : Agree s t) (steps : List (Step α)) :
    Agree (s.final steps) (t.final steps) ∧
      readings steps (s.answers steps) = readings steps (t.answers steps) := by
  cases steps with
  | nil => exact ⟨h, rfl⟩
  | cons step later =>
    obtain ⟨hnext, hanswer⟩ := h.step step
    obtain ⟨hfinal, hanswers⟩ := hnext.run later
    refine ⟨hfinal, ?_⟩
    rw [answers_cons, answers_cons, readings, readings, hanswer, hanswers]
termination_by structural steps

end

/-- A thread is given the place for a highlighter and the log, and nothing else of its parent; of
what it does, only what it puts there is left to the parent. -/
theorem run_thread (s : Session) (before steps after : List (Step α)) :
    let parent := s.final before
    let child : Session :=
      { active := {}, saved := [], installed := parent.installed, log := parent.log }
    let joined := s.final (before ++ [.thread steps])
    let last := (installs (before ++ [.thread steps])).getLast?.getD s.installed
    (s.answers (before ++ .thread steps :: after))[before.length]? =
      some (.ok (.thread (child.answers steps))) ∧
      (∀ other : Session, readings [.thread steps] [.ok (.thread (child.answers steps))] =
        readings [.thread steps] (other.answers [.thread steps])) ∧
      joined.active = parent.active ∧ joined.saved = parent.saved ∧
      joined.installed = last ∧ joined.highlighter = last.getD (.builtIn {}) := by
  intro parent child joined last
  have hjoined : joined = parent.join (child.final steps) := by
    simp only [joined, final_append]
    rfl
  have hlast : joined.installed = last := final_installed s (before ++ [.thread steps])
  refine ⟨?_, ?_, ?_, ?_, hlast, ?_⟩
  · rw [getElem?_answers]
    rfl
  · intro other
    have hchild := ((agree_fork parent other).run steps).2
    exact congrArg (· ++ []) hchild
  · rw [hjoined]
    rfl
  · rw [hjoined]
    rfl
  · rw [highlighter, hlast]

/-- The contexts of the parent are not open in a thread, and its configuration is not in force
there. -/
example : ({ active := { maxLineLength := some 7 }, saved := [{}] } : Session).answers
    [.thread [.current, .leave, .set [], .thread [.leaveByError]], (.current : Step Unit)] =
      [.ok (.thread [.ok (.config {}), .error .noOpenContext, .ok .done,
        .ok (.thread [.error .noOpenContext])]),
        .ok (.config { maxLineLength := some 7 })] :=
  rfl

end ScriptSpans.Session
