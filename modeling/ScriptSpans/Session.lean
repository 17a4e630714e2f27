import ScriptSpans.Operation

namespace ScriptSpans

/-- The settings of a configuration as they are handed over, not yet checked. -/
abbrev Settings := List (String × Json.Value)

/-- A session as one thread sees it. `saved` holds the configuration to restore for each open
context, the innermost first; without a highlighter installed the built-in one serves. -/
structure Session where
  active : Config := {}
  saved : List Config := []
  installed : Option Highlighter := none
  log : List Notice := []

namespace Session

inductive Choice
  | standard
  | given (h : Highlighter)
  | builtIn (settings : Option Settings) (classes : ClassMap)

inductive Step (α : Type)
  | current
  | set (settings : Settings)
  | reset
  | enter (settings : Settings)
  | leave
  | leaveByError
  | install (choice : Choice)
  | hasHighlighter
  | supports (language : Option String)
  | block (request : Request)
  | takeLog
  | thread (steps : List (Step α))
  | operation (run : Operation α)
deriving Inhabited

inductive Answer (α : Type)
  | done
  | config (config : Config)
  | swallowed (b : Bool)
  | flag (b : Bool)
  | text (text : String)
  | log (notices : List Notice)
  | thread (answers : List (Except Failure (Answer α)))
  | value (a : α)
deriving Inhabited

def highlighter (s : Session) : Highlighter := s.installed.getD (.builtIn {})

def Choice.highlighter : Choice → Except ConfigFault (Option Highlighter)
  | standard => .ok none
  | given h => .ok (some h)
  | builtIn none classes => .ok (some (.builtIn ⟨none, classes⟩))
  | builtIn (some settings) classes =>
    (Config.ofMembers settings).map (fun config ↦ some (.builtIn ⟨some config, classes⟩))

def pop (s : Session) : Except Failure Session :=
  match s.saved with
  | [] => .error .noOpenContext
  | config :: saved => .ok { s with active := config, saved }

/-- Carries out an operation under the configuration in force; its notices are logged even if it
fails. -/
def perform {α : Type} (s : Session) (operation : Operation α) : Except Failure α × Session :=
  let result := operation.outcome s.active
  (result.value, { s with log := s.log ++ result.notices })

def fork (s : Session) : Session := { s with active := {}, saved := [] }

/-- The session after another thread has ended: that thread's contexts and configuration are
gone. -/
def join (s other : Session) : Session := { other with active := s.active, saved := s.saved }

mutual

def step {α : Type} (s : Session) : Step α → Except Failure (Answer α) × Session
  | .current => (.ok (.config s.active), s)
  | .set settings =>
    match Config.ofMembers settings with
    | .error e => (.error (.config e), s)
    | .ok config => (.ok .done, { s with active := config })
  | .reset => (.ok .done, { s with active := {} })
  | .enter settings =>
    match Config.ofMembers settings with
    | .error e => (.error (.config e), s)
    | .ok config => (.ok .done, { s with active := config, saved := s.active :: s.saved })
  | .leave =>
    match s.pop with
    | .error e => (.error e, s)
    | .ok left => (.ok .done, left)
  | .leaveByError =>
    match s.pop with
    | .error e => (.error e, s)
    | .ok left => (.ok (.swallowed false), left)
  | .install choice =>
    match choice.highlighter with
    | .error e => (.error (.config e), s)
    | .ok installed => (.ok .done, { s with installed })
  | .hasHighlighter => (.ok (.flag s.installed.isSome), s)
  | .supports language =>
    match s.highlighter.supports? language with
    | none => (.error .noLanguageCheck, s)
    | some b => (.ok (.flag b), s)
  | .block request =>
    let (shown, s) := s.perform (Operation.serve s.highlighter request)
    (shown.map .text, s)
  | .takeLog => (.ok (.log s.log), { s with log := [] })
  | .thread steps =>
    let (answers, other) := s.fork.run steps
    (.ok (.thread answers), s.join other)
  | .operation run =>
    let (outcome, s) := s.perform run
    (outcome.map .value, s)
termination_by structural step => step

def run {α : Type} (s : Session) : List (Step α) → List (Except Failure (Answer α)) × Session
  | [] => ([], s)
  | step :: later =>
    let (answer, s) := s.step step
    let (answers, s) := s.run later
    (answer :: answers, s)
termination_by structural steps => steps

end

end Session

end ScriptSpans
