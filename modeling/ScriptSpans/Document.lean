import ScriptSpans.Markup
import ScriptSpans.Span

namespace ScriptSpans

/-- The spans of one line and its number, counted from one in classified text. An empty line has no
spans. -/
structure Line where
  spans : List Span := []
  lineno : Int := 1
deriving DecidableEq, Repr

namespace Line

def text (line : Line) : String := String.join (line.spans.map Span.text)

def source (line : Line) : String := Markup.unescape line.text

def categories (line : Line) : List Category := line.spans.map Span.category

end Line

structure Document where
  lines : List Line := []
deriving DecidableEq, Repr

def Document.source (doc : Document) : String :=
  "\n".intercalate (doc.lines.map Line.source)

end ScriptSpans
