import ScriptSpans.Proofs.Session

namespace ScriptSpans

namespace Session

variable {α : Type}

/-- What a run comes to at a moment: the session as the thread at work sees it, and the step it is
about to take. A moment is the number of a step, then of a step in the thread which that one runs,
and so on. -/
def at? (s : Session) (steps : List (Step α)) : List Nat → Option (Session × Step α)
  | [] => none
  | [n] => steps[n]?.map (fun step ↦ (s.final (steps.take n), step))
  | n :: m :: inner =>
    match steps[n]? with
    | some (.thread inside) => (s.final (steps.take n)).fork.at? inside (m :: inner)
    | _ => none

end Session

namespace Operation

variable {α β ε : Type}

end Operation

inductive Classified
  | document (doc : Document)
  | documents (docs : List Document)
  | emitted (answers : List Feed.Answer)
  | markup (text : String)

/-- The calls that classify: a snippet as a whole, the steps on a new feed, a built-in highlighter,
and a presenter, which shows one snippet or has one or more classified. -/
inductive Call
  | document (source : String) (config : Option Config)
  | feed (source : String) (config : Option Config) (steps : List Feed.Step)
  | highlight (h : BuiltIn) (request : Request)
  | present (p : Presenter) (source : String)
  | presented (p : Presenter) (source : String)
  | presentedAll (p : Presenter) (sources : List String)

namespace Call

def operation : Call → Operation Classified
  | document source config => .document <$> Operation.document source config
  | feed source config steps => do
    let feed ← Operation.feed source config
    let (answers, _) ← Operation.ofLogged (Feed.Pool.run { feed } steps)
    return .emitted answers
  | highlight h request => .markup <$> Operation.serve (.builtIn h) request
  | present p source => do
    let shown ← Operation.ofLogged (p.present source)
    .markup <$> Operation.ofExcept .render shown
  | presented p source => .document <$> Operation.ofLogged (p.document source)
  | presentedAll p sources => .documents <$> Operation.ofLogged (p.documents sources)

end Call

namespace Session

end Session

end ScriptSpans
