import ScriptSpans.Proofs.Session

namespace ScriptSpans.Session

inductive Exit
  | normal
  | byError
deriving DecidableEq, Repr

variable {α : Type}

def Exit.step : Exit → Step α
  | normal => .leave
  | byError => .leaveByError

def Exit.answer : Exit → Answer α
  | normal => .done
  | byError => .swallowed false

/-- Steps that leave every context that they enter, and no other. -/
inductive Balanced : List (Step α) → Prop
  | nil : Balanced []
  | step {step : Step α} {later : List (Step α)} (keeps : step.keepsContexts)
      (tail : Balanced later) :
      Balanced (step :: later)
  | context {settings : Settings} {config : Config} {inner later : List (Step α)} (exit : Exit)
      (entered : Config.ofMembers settings = .ok config) (inside : Balanced inner)
        (tail : Balanced later) :
      Balanced (.enter settings :: (inner ++ exit.step :: later))

theorem Balanced.append {first later : List (Step α)} (h : Balanced first) (h' : Balanced later) :
    Balanced (first ++ later) := by
  induction h with
  | nil => exact h'
  | step keeps _ ih => exact .step keeps ih
  | @context settings config inner later exit entered inside _ _ ih =>
    rw [List.cons_append, List.append_assoc, List.cons_append]
    exact .context exit entered inside ih

theorem step_exit {s : Session} {config : Config} {saved : List Config}
    (h : s.saved = config :: saved) (exit : Exit) :
    s.step (exit.step : Step α) = (.ok exit.answer, { s with active := config, saved }) := by
  cases exit <;> simp only [Exit.step, Exit.answer, Session.step, pop, h]

/-- After balanced steps the open contexts are those from before. -/
theorem Balanced.saved_final {steps : List (Step α)} (h : Balanced steps) (s : Session) :
    (s.final steps).saved = s.saved := by
  induction h generalizing s with
  | nil => rfl
  | step keeps _ ih => rw [final_cons, ih, step_saved s keeps]
  | @context settings config inner later exit entered inside _ ihinside ihtail =>
    have hinside := ihinside (s.step (.enter settings : Step α)).2
    rw [step_enter s entered] at hinside
    rw [final_cons, final_append, final_cons, ihtail, step_enter s entered, step_exit hinside]

theorem Balanced.leaves {inner : List (Step α)} (h : Balanced inner) (s : Session)
    {settings : Settings} {config : Config} (entered : Config.ofMembers settings = .ok config)
    (exit : Exit) :
    let inside := s.final (.enter settings :: inner)
    inside.step (exit.step : Step α) =
      (.ok exit.answer, { inside with active := s.active, saved := s.saved }) := by
  have hsaved := h.saved_final (s.step (.enter settings : Step α)).2
  rw [step_enter s entered] at hsaved
  dsimp only
  rw [final_cons, step_enter s entered]
  exact step_exit hsaved exit

/-- In any run, with any steps before and after. -/
theorem run_context (s : Session) (before inner after : List (Step α)) {settings : Settings}
    {config : Config} (exit : Exit) (entered : Config.ofMembers settings = .ok config)
    (inside : Balanced inner) :
    (s.final (before ++ [.enter settings])).active = config ∧
      (s.final (before ++ .enter settings :: (inner ++ [exit.step]))).active =
        (s.final before).active ∧
      (s.final (before ++ .enter settings :: (inner ++ [exit.step]))).saved =
        (s.final before).saved ∧
      (s.answers (before ++ .enter settings :: (inner ++ exit.step :: after)))[before.length +
        inner.length + 1]? =
        some (.ok exit.answer) := by
  have hexit := inside.leaves (s.final before) entered exit
  have hfinal : s.final (before ++ .enter settings :: (inner ++ [exit.step])) =
      (((s.final before).final (.enter settings :: inner)).step (exit.step : Step α)).2 := by
    rw [final_append, ← List.cons_append, final_append, final_cons, final_nil]
  refine ⟨?_, ?_, ?_, ?_⟩
  · rw [final_append, final_cons, final_nil, step_enter _ entered]
  · rw [hfinal, hexit]
  · rw [hfinal, hexit]
  · have hsplit : before ++ .enter settings :: (inner ++ exit.step :: after) =
        (before ++ .enter settings :: inner) ++ exit.step :: after := by simp
    have hlength :
        before.length + inner.length + 1 = (before ++ .enter settings :: inner).length := by
      rw [List.length_append, List.length_cons, Nat.add_assoc]
    rw [hsplit, hlength, getElem?_answers, final_append, hexit]

theorem run_context_nested :
    let before : List (Step Unit) := [.set [("max_line_length", .integer 80)]]
    let settings : Settings := [("max_line_length", .integer 7)]
    let inner : List (Step Unit) := [.reset, .enter [("max_line_length", .integer (-1))],
      .enter [("trim_snippet", .boolean true)], .set [("max_line_length", .integer 3)],
      .leaveByError]
    let s : Session := {}
    Config.ofMembers settings = .ok { maxLineLength := some 7 } ∧ Balanced inner ∧
      (s.final (before ++ [.enter settings])).active = { maxLineLength := some 7 } ∧
      (s.final (before ++ .enter settings :: (inner ++ [.leaveByError]))).active =
        { maxLineLength := some 80 } ∧
      (s.answers (before ++ .enter settings :: (inner ++ .leaveByError :: [.current])))[7]? =
        some (.ok (.swallowed false)) := by
  intro before settings inner s
  have entered : Config.ofMembers settings = .ok { maxLineLength := some 7 } := rfl
  have inside : Balanced inner :=
    .step rfl (.step rfl (.context .byError rfl (.step rfl .nil) .nil))
  have h := run_context s before inner [.current] .byError entered inside
  exact ⟨entered, inside, h.1, h.2.1, h.2.2.2⟩

end ScriptSpans.Session
