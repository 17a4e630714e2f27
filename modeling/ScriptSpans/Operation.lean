import ScriptSpans.Failure
import ScriptSpans.Highlighter
import ScriptSpans.Presenter

namespace ScriptSpans

abbrev Operation := ReaderT Config (ExceptT Failure Logged)

namespace Operation

def outcome {α : Type} (operation : Operation α) (active : Config) : Logged (Except Failure α) :=
  (operation.run active).run

def ofLogged {α : Type} (x : Logged α) : Operation α := fun _ ↦ ExceptT.lift x

def ofExcept {ε α : Type} (wrap : ε → Failure) : Except ε α → Operation α
  | .ok a => pure a
  | .error e => throw (wrap e)

/-- A configuration that is given explicitly counts before the one in force. -/
def configOr (config : Option Config) : Operation Config := do
  return config.getD (← read)

def feed (source : String) (config : Option Config) : Operation Feed := do
  return Feed.ofSource (← configOr config) source

def document (source : String) (config : Option Config) : Operation Document := do
  ofLogged (Document.ofSource (← configOr config) source)

def line (raw : String) (lineno : Int) : Operation Line := do
  ofLogged (Line.ofSource (← read) raw lineno)

def html (classes : ClassMap) (doc : Document) : Operation String :=
  ofExcept .render (Html.ofDocument classes doc)

def lineHtml (classes : ClassMap) (line : Line) : Operation String :=
  ofExcept .render (Html.ofLine classes line)

def block (classes : ClassMap) (options : Html.BlockOptions) (doc : Document) :
    Operation String :=
  ofExcept .render (Html.codeBlock classes options doc)

def snippetHtml (source : String) : Operation String := do
  html .standard (← document source none)

def serve (h : Highlighter) (request : Request) : Operation String := do
  let shown ← ofLogged (h.highlight (← read) request)
  ofExcept .render shown

end Operation

end ScriptSpans
