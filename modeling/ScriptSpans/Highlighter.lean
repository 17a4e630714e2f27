import ScriptSpans.Feed
import ScriptSpans.Html

namespace ScriptSpans

def grammarNames : List String :=
  ["javascript", "js", "jsx", "mjs", "cjs", "typescript", "ts", "tsx"]

/-- Blanks around a name and the case of its letters do not matter. No character outside ASCII has
one of the letters of these names as its lower case, so only ASCII letters need lowering. -/
def hasGrammar (language : Option String) : Bool :=
  grammarNames.contains ((Text.trim (language.getD "")).map Char.toLower)

structure Request where
  code : String
  language : Option String
  emphasized : Option (List Int) := none
  numbered : Bool := false
deriving DecidableEq, Repr

namespace Request

def options (request : Request) : Html.BlockOptions :=
  { language := request.language, emphasized := request.emphasized.getD [],
    numbered := request.numbered }

def plainBlock (request : Request) : String :=
  Html.block none request.language (Markup.escape request.code)

end Request

/-- The built-in highlighter. Without a configuration of its own, the one in force when code is
shown counts. -/
structure BuiltIn where
  config : Option Config := none
  classes : ClassMap := .standard

def BuiltIn.highlight (h : BuiltIn) (active : Config) (request : Request) :
    Logged (Except Html.Fault String) :=
  if hasGrammar request.language then do
    let doc ← Document.ofSource (h.config.getD active) request.code
    return Html.blockOf h.classes request.options doc
  else do
    Logged.note (.noGrammar request.language)
    return .ok request.plainBlock

/-- What may be installed to show code: the built-in highlighter, a service that also says which
languages it supports, or a function of code and language alone. -/
inductive Highlighter
  | builtIn (h : BuiltIn)
  | service (run : Request → String) (supports : Option String → Bool)
  | function (run : String → Option String → String)

namespace Highlighter

def highlight (h : Highlighter) (active : Config) (request : Request) :
    Logged (Except Html.Fault String) :=
  match h with
  | builtIn h => h.highlight active request
  | service run _ => pure (.ok (run request))
  | function run => pure (.ok (run request.code request.language))

def supports? (h : Highlighter) (language : Option String) : Option Bool :=
  match h with
  | builtIn _ => some (hasGrammar language)
  | service _ supports => some (supports language)
  | function _ => none

end Highlighter

end ScriptSpans
