import ScriptSpans.Proofs.Config
import ScriptSpans.Proofs.Session.Contexts
import ScriptSpans.Proofs.Session.Threads

namespace ScriptSpans.Session

variable {α : Type}

/-- The settings that a step hands over, be it to set them, to enter a context or to install a
highlighter. -/
def Step.settings? : Step α → Option Settings
  | .set settings => some settings
  | .enter settings => some settings
  | .install (.builtIn (some settings) _) => some settings
  | _ => none

theorem step_of_settings (s : Session) {step : Step α} {settings : Settings}
    (h : step.settings? = some settings) :
    (∃ fault, Config.ofMembers settings = .error fault ∧
      s.step step = (.error (.config fault), s)) ∨
      ∃ config, Config.ofMembers settings = .ok config ∧ (s.step step).1 = .ok .done := by
  unfold Step.settings? at h
  split at h
  · next given =>
    obtain rfl := Option.some.inj h
    rw [Session.step]
    cases Config.ofMembers given with
    | error fault => exact .inl ⟨fault, rfl, rfl⟩
    | ok config => exact .inr ⟨config, rfl, rfl⟩
  · next given =>
    obtain rfl := Option.some.inj h
    rw [Session.step]
    cases Config.ofMembers given with
    | error fault => exact .inl ⟨fault, rfl, rfl⟩
    | ok config => exact .inr ⟨config, rfl, rfl⟩
  · next given _ =>
    obtain rfl := Option.some.inj h
    rw [Session.step, Choice.highlighter]
    cases Config.ofMembers given with
    | error fault => exact .inl ⟨fault, rfl, rfl⟩
    | ok config => exact .inr ⟨config, rfl, rfl⟩
  · cases h

/-- Whether a step was refused: it hands over settings, and its answer is an error. -/
def Step.isRefused (step : Step α) : Except Failure (Answer α) → Bool
  | .error _ => step.settings?.isSome
  | .ok _ => false

theorem step_of_isRefused {s : Session} {step : Step α} (h : step.isRefused (s.step step).1) :
    (s.step step).2 = s := by
  cases hanswer : (s.step step).1 with
  | ok answer =>
    rw [hanswer] at h
    cases h
  | error e =>
    rw [hanswer] at h
    obtain ⟨settings, hsettings⟩ := Option.isSome_iff_exists.mp h
    rcases step_of_settings s hsettings with ⟨fault, -, hrefused⟩ | ⟨config, -, haccepted⟩
    · rw [hrefused]
    · cases hanswer.symm.trans haccepted

mutual

def Step.admitted : Step α → Except Failure (Answer α) → Step α × Except Failure (Answer α)
  | .thread steps, .ok (.thread answers) =>
    let kept := admitted steps answers
    (.thread (kept.map Prod.fst), .ok (.thread (kept.map Prod.snd)))
  | step, answer => (step, answer)
termination_by structural step => step

/-- What is left of a run when the refused steps are erased, each step with its answer. -/
def admitted : List (Step α) → List (Except Failure (Answer α)) →
    List (Step α × Except Failure (Answer α))
  | step :: later, answer :: answers =>
    if step.isRefused answer then admitted later answers else step.admitted
      answer :: admitted later answers
  | _, _ => []
termination_by structural steps => steps

end

mutual

theorem step_admitted (s : Session) (step : Step α) :
    let kept := step.admitted (s.step step).1
    s.step kept.1 = (kept.2, (s.step step).2) := by
  cases step with
  | thread steps =>
    obtain ⟨hanswers, hfinal⟩ := run_admitted s.fork steps
    simp only [step_thread, Step.admitted, hanswers, hfinal]
  | current | set | reset | enter | leave | leaveByError | install | hasHighlighter | supports |
      block | takeLog
  | operation => rfl
termination_by structural step

/-- By induction over the run: a refused step is passed over where it stands, since the session is
the same after it. -/
theorem run_admitted (s : Session) (steps : List (Step α)) :
    let kept := admitted steps (s.answers steps)
    s.answers (kept.map Prod.fst) = kept.map Prod.snd ∧
      s.final (kept.map Prod.fst) = s.final steps := by
  cases steps with
  | nil => exact ⟨rfl, rfl⟩
  | cons step later =>
    have hstep := step_admitted s step
    obtain ⟨hanswers, hfinal⟩ := run_admitted (s.step step).2 later
    dsimp only at hstep hanswers hfinal ⊢
    rw [answers_cons, admitted, final_cons]
    split
    · next hrefused =>
      rw [step_of_isRefused hrefused] at hanswers hfinal ⊢
      exact ⟨hanswers, hfinal⟩
    · rw [List.map_cons, List.map_cons, answers_cons, final_cons, hstep]
      exact ⟨congrArg _ hanswers, hfinal⟩
termination_by structural steps

end

mutual

/-- The settings that a step hands over for a configuration to be in force. -/
def Step.given : Step α → List Settings
  | .set settings => [settings]
  | .enter settings => [settings]
  | .thread steps => given steps
  | _ => []
termination_by structural step => step

def given : List (Step α) → List Settings
  | [] => []
  | step :: later => step.given ++ given later
termination_by structural steps => steps

end

/-- A run comes to a session, as the thread at work sees it: at its start, after some of its steps,
or in a thread that it runs. -/
inductive Reaches : Session → List (Step α) → Session → Prop
  | start (s : Session) (steps : List (Step α)) : Reaches s steps s
  | later {s now : Session} {step : Step α} {later : List (Step α)}
      (h : Reaches (s.step step).2 later now) :
      Reaches s (step :: later) now
  | inside {s now : Session} {steps later : List (Step α)} (h : Reaches s.fork steps now) :
      Reaches s (.thread steps :: later) now

structure Confined (P : Config → Prop) (s : Session) : Prop where
  active : P s.active
  saved : ∀ config ∈ s.saved, P config

section confined

variable {P : Config → Prop} {s now : Session}

theorem Confined.pop (h : s.Confined P) : (s.pop.toOption.getD s).Confined P := by
  obtain ⟨active, saved, installed, log⟩ := s
  cases saved with
  | nil => exact h
  | cons config saved =>
    obtain ⟨hconfig, hsaved⟩ := List.forall_mem_cons.mp h.saved
    exact ⟨hconfig, hsaved⟩

theorem Confined.step (standard : P {}) (h : s.Confined P) {step : Step α}
    (given : ∀ settings ∈ step.given, ∀ config, Config.ofMembers settings = .ok config → P config) :
    (s.step step).2.Confined P := by
  cases step with
  | set settings =>
    rw [Session.step]
    cases hconfig : Config.ofMembers settings with
    | error fault => exact h
    | ok config => exact ⟨given _ List.mem_cons_self config hconfig, h.saved⟩
  | reset => exact ⟨standard, h.saved⟩
  | enter settings =>
    rw [Session.step]
    cases hconfig : Config.ofMembers settings with
    | error fault => exact h
    | ok config =>
      exact ⟨given _ List.mem_cons_self config hconfig,
        List.forall_mem_cons.mpr ⟨h.active, h.saved⟩⟩
  | leave =>
    rw [(step_leaves s).1]
    exact h.pop
  | leaveByError =>
    rw [(step_leaves s).2]
    exact h.pop
  | install choice =>
    rw [Session.step]
    cases choice.highlighter <;> exact ⟨h.active, h.saved⟩
  | supports language =>
    rw [Session.step]
    cases s.highlighter.supports? language <;> exact h
  | current | hasHighlighter => exact h
  | block | takeLog | thread | operation => exact ⟨h.active, h.saved⟩

/-- What holds of the standard configuration and of those that are given holds wherever the run
comes to. -/
theorem Confined.reaches (standard : P {}) {steps : List (Step α)} (hreaches : Reaches s steps now)
    (h : s.Confined P)
    (given : ∀ settings ∈ given steps, ∀ config, Config.ofMembers settings =
      .ok config → P config) :
    now.Confined P := by
  induction hreaches with
  | start => exact h
  | @later s now step later _ ih =>
    have hstep := h.step standard (fun settings hmem ↦ given settings (List.mem_append_left _ hmem))
    exact ih hstep (fun settings hmem ↦ given settings (List.mem_append_right _ hmem))
  | @inside s now steps later _ ih =>
    have hfork : s.fork.Confined P := ⟨standard, List.forall_mem_nil _⟩
    exact ih hfork (fun settings hmem ↦ given settings (List.mem_append_left _ hmem))

end confined

/-- Refused settings leave no trace: without the refused steps every other step of a run is answered
as before, and the run ends in the same session. Settings are refused because of their limit, and
the session is then as it was; to enter a context with such settings enters none, so the next exit
is that of the context around. Wherever a run comes to, the limits in force and those to be restored
are among the given ones, and none was given below zero. -/
theorem run_unrefused (s : Session) (steps : List (Step α)) :
    let kept := admitted steps (s.answers steps)
    (s.answers (kept.map Prod.fst) = kept.map Prod.snd ∧
      s.final (kept.map Prod.fst) = s.final steps) ∧
      (∀ (now : Session) (step : Step α) (settings : Settings), step.settings? = some settings →
        (∃ fault, Config.Refuses (Config.givenLimit settings) fault ∧
          now.step step = (.error (.config fault), now)) ∨
          (∃ limit, Config.Limits (Config.givenLimit settings) limit) ∧
            (now.step step).1 = .ok .done) ∧
      (∀ (inner later : List (Step α)) (settings refused : Settings) (config : Config)
        (fault : ConfigFault)
        (exit : Exit), Config.ofMembers settings = .ok config →
          Config.Refuses (Config.givenLimit refused) fault →
        Balanced inner → Balanced later →
          let around := s.final steps
          let inside := s.final (steps ++ .enter settings :: (inner ++ .enter refused :: later))
          inside.step (exit.step : Step α) =
            (.ok exit.answer, { inside with active := around.active, saved := around.saved })) ∧
      (∀ now, Reaches ({} : Session) steps now → ∀ config ∈ now.active :: now.saved,
        config = {} ∨ ∃ settings ∈ given steps,
          Config.Limits (Config.givenLimit settings) config.maxLineLength) := by
  refine ⟨run_admitted s steps, ?_, ?_, ?_⟩
  · intro now step settings hsettings
    rcases step_of_settings now hsettings with ⟨fault, hconfig, hrefused⟩ |
      ⟨config, hconfig, haccepted⟩
    · exact .inl ⟨fault, Config.ofMembers_eq_error_iff.mp hconfig, hrefused⟩
    · exact .inr ⟨⟨_, (Config.ofMembers_eq_ok_iff.mp hconfig).1⟩, haccepted⟩
  · intro inner later settings refused config fault exit entered hrefused hinner hlater
    have keeps : (Step.enter refused : Step α).keepsContexts := by
      rw [Step.keepsContexts, Config.ofMembers_eq_error_iff.mpr hrefused]
      rfl
    have inside := hinner.append (.step keeps hlater)
    dsimp only
    rw [final_append]
    exact inside.leaves (s.final steps) entered exit
  · intro now hreaches
    have hconfined : now.Confined (fun config ↦ config = {} ∨
        ∃ settings ∈ given steps, Config.Limits (Config.givenLimit settings)
          config.maxLineLength) := by
      refine Confined.reaches (.inl rfl) hreaches ⟨.inl rfl, List.forall_mem_nil _⟩ ?_
      intro settings hmem config hconfig
      exact .inr ⟨settings, hmem, (Config.ofMembers_eq_ok_iff.mp hconfig).1⟩
    exact List.forall_mem_cons.mpr ⟨hconfined.active, hconfined.saved⟩

theorem run_unrefused_contexts :
    let negative : Settings := [("max_line_length", .integer (-1))]
    let worded : Settings := [("max_line_length", .string "7")]
    let seven : Settings := [("max_line_length", .integer 7)]
    let steps : List (Step Unit) := [.set negative, .enter seven, .thread [.enter worded, .current],
      .install (.builtIn (some negative) .standard), .hasHighlighter, .current]
    let s : Session := {}
    let now := s.final (steps.take 2)
    s.answers [.enter seven, .thread [.current], .hasHighlighter, (.current : Step Unit)] =
        [.ok .done, .ok (.thread [.ok (.config {})]), .ok (.flag false),
          .ok (.config { maxLineLength := some 7 })] ∧
      ((.enter worded : Step Unit).settings? = some worded ∧
        ((∃ fault, Config.Refuses (Config.givenLimit worded) fault ∧
          now.step (.enter worded : Step Unit) = (.error (.config fault), now)) ∨
            (∃ limit, Config.Limits (Config.givenLimit worded) limit) ∧
              (now.step (.enter worded : Step Unit)).1 = .ok .done)) ∧
      (Config.ofMembers seven = .ok { maxLineLength := some 7 } ∧
        Config.Refuses (Config.givenLimit negative) .negativeLimit ∧
        Balanced [(.reset : Step Unit)] ∧ Balanced ([] : List (Step Unit)) ∧
        ((s.final (steps ++ .enter seven :: ([.reset] ++ .enter negative :: []))).step
          (.leaveByError : Step Unit)).2 =
          s.final steps) ∧
      (Reaches s steps now ∧ now.active ∈ now.active :: now.saved ∧
        (now.active = {} ∨ ∃ settings ∈ given steps,
        Config.Limits (Config.givenLimit settings) now.active.maxLineLength)) := by
  intro negative worded seven steps s now
  have hsettings : (.enter worded : Step Unit).settings? = some worded := rfl
  have hseven : Config.ofMembers seven = .ok { maxLineLength := some 7 } := rfl
  have hnegative : Config.Refuses (Config.givenLimit negative) .negativeLimit :=
    show Config.Refuses (.integer (-1)) .negativeLimit from .integer (by decide)
  have hreset : Balanced [(.reset : Step Unit)] := .step rfl .nil
  have hreaches : Reaches s steps now := .later (.later (.start _ _))
  obtain ⟨⟨hanswers, -⟩, hsteps, hexit, hlimits⟩ := run_unrefused s steps
  have hleft :=
    hexit [.reset] [] seven negative { maxLineLength := some 7 } .negativeLimit .byError
    hseven hnegative
    hreset .nil
  exact ⟨hanswers, ⟨hsettings, hsteps now _ worded hsettings⟩,
    ⟨hseven, hnegative, hreset, .nil, congrArg Prod.snd hleft⟩,
    hreaches, List.mem_cons_self, hlimits now hreaches _ List.mem_cons_self⟩

end ScriptSpans.Session
