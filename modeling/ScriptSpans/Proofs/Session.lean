import ScriptSpans.Session

namespace ScriptSpans.Session

variable {α : Type} (s : Session)

def answers (steps : List (Step α)) : List (Except Failure (Answer α)) := (s.run steps).1

def final (steps : List (Step α)) : Session := (s.run steps).2

@[simp] theorem final_nil : s.final ([] : List (Step α)) = s := rfl

theorem final_cons (step : Step α) (later : List (Step α)) :
    s.final (step :: later) = (s.step step).2.final later := rfl

theorem answers_cons (step : Step α) (later : List (Step α)) :
    s.answers (step :: later) = (s.step step).1 :: (s.step step).2.answers later := rfl

theorem final_append (first later : List (Step α)) :
    s.final (first ++ later) = (s.final first).final later := by
  induction first generalizing s with
  | nil => rfl
  | cons step first ih => rw [List.cons_append, final_cons, final_cons, ih]

theorem answers_append (first later : List (Step α)) :
    s.answers (first ++ later) = s.answers first ++ (s.final first).answers later := by
  induction first generalizing s with
  | nil => rfl
  | cons step first ih =>
    rw [List.cons_append, answers_cons, answers_cons, final_cons, ih, List.cons_append]

theorem length_answers (steps : List (Step α)) : (s.answers steps).length = steps.length := by
  induction steps generalizing s with
  | nil => rfl
  | cons step later ih => rw [answers_cons, List.length_cons, List.length_cons, ih]

theorem getElem?_answers (before after : List (Step α)) (step : Step α) :
    (s.answers (before ++ step :: after))[before.length]? =
      some ((s.final before).step step).1 := by
  rw [answers_append, List.getElem?_append_right (Nat.le_of_eq (s.length_answers before)),
    length_answers, Nat.sub_self, answers_cons]
  rfl

/-- Whether a step leaves the stack of contexts alone. To enter one with bad settings is such a
step, for nothing is entered. -/
def Step.keepsContexts : Step α → Bool
  | .enter settings => (Config.ofMembers settings).toOption.isNone
  | .leave => false
  | .leaveByError => false
  | _ => true

theorem step_enter {settings : Settings} {config : Config}
    (h : Config.ofMembers settings = .ok config) :
    s.step (.enter settings : Step α) =
      (.ok .done, { s with active := config, saved := s.active :: s.saved }) := by
  rw [step, h]

theorem step_saved {step : Step α} (h : step.keepsContexts) : (s.step step).2.saved = s.saved := by
  cases step with
  | enter settings =>
    rw [Step.keepsContexts] at h
    rw [Session.step]
    cases hsettings : Config.ofMembers settings with
    | error e => rfl
    | ok config => simp [hsettings, Except.toOption] at h
  | leave => cases h
  | leaveByError => cases h
  | set settings =>
    rw [Session.step]
    split <;> rfl
  | install choice =>
    rw [Session.step]
    split <;> rfl
  | supports language =>
    rw [Session.step]
    split <;> rfl
  | current | reset | hasHighlighter | block | takeLog | thread | operation => rfl

end ScriptSpans.Session
