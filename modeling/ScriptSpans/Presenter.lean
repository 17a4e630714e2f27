import ScriptSpans.Feed
import ScriptSpans.Html

namespace ScriptSpans

inductive Renderer
  | html (classes : ClassMap)
  | custom (run : Document → String)

def Renderer.write (r : Renderer) (doc : Document) : Except Html.Fault String :=
  match r with
  | html classes => Html.ofDocument classes doc
  | custom run => .ok (run doc)

structure Presenter where
  config : Config
  renderer : Renderer

namespace Presenter

def ofSettings (limit : Json.Value) (trim : Bool) (renderer : Renderer) :
    Except ConfigFault Presenter :=
  (Config.limitOf limit).map (fun limit ↦ ⟨⟨limit, trim⟩, renderer⟩)

def document (p : Presenter) (source : String) : Logged Document :=
  Document.ofSource p.config source

def documents (p : Presenter) : List String → Logged (List Document)
  | [] => pure []
  | source :: sources => do
    let doc ← p.document source
    return doc :: (← p.documents sources)

def write (p : Presenter) (doc : Document) : Except Html.Fault String :=
  p.renderer.write doc

def present (p : Presenter) (source : String) : Logged (Except Html.Fault String) := do
  return p.write (← p.document source)

/-- The text to hand out for copying: the snippet under the same trimming, and never its markup. -/
def copied (p : Presenter) (source : String) : String :=
  if p.config.trimSnippet then Text.trim source else source

end Presenter

end ScriptSpans
