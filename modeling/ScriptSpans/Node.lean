import ScriptSpans.Document
import ScriptSpans.Text.Numeral
import ScriptSpans.Text.Quoted

namespace ScriptSpans

inductive NodeKind
  | span | line | document
deriving DecidableEq, Repr

def NodeKind.name : NodeKind → String
  | .span => "Span"
  | .line => "Line"
  | .document => "Document"

inductive Node
  | span (span : Span)
  | line (line : Line)
  | document (doc : Document)
deriving DecidableEq, Repr

def Node.kind : Node → NodeKind
  | .span _ => .span
  | .line _ => .line
  | .document _ => .document

def shownEntries : List String → String
  | [] => "()"
  | [entry] => "(" ++ entry ++ ",)"
  | entries => "(" ++ ", ".intercalate entries ++ ")"

def Span.shown (span : Span) : String :=
  let chars := span.text.toList
  let text := if 20 < chars.length then String.ofList (chars.take 17) ++ "..." else span.text
  s!"Span({span.category.name}, {Text.quoted text})"

def Line.shown (line : Line) : Option String := do
  let numeral ← Text.numeral? line.lineno
  return s!"Line(spans={shownEntries (line.spans.map Span.shown)}, lineno={numeral})"

def Document.shown (doc : Document) : Option String := do
  let lines ← doc.lines.mapM Line.shown
  return s!"Document(lines={shownEntries lines})"

def Node.shown : Node → Option String
  | .span s => some s.shown
  | .line l => l.shown
  | .document d => d.shown

/-- A place in a node: lines of a document, then spans of a line, each counted from zero, or from
the end by negative numbers. -/
abbrev Path := List Int

def itemAt? {α : Type} (items : List α) (index : Int) : Option α :=
  if 0 ≤ index then items[index.toNat]?
  else if index.natAbs ≤ items.length then items[items.length - index.natAbs]?
  else none

def Node.at? (node : Node) : Path → Option Node
  | [] => some node
  | index :: path =>
    match node with
    | .span _ => none
    | .line l => (itemAt? l.spans index).bind (fun s ↦ (Node.span s).at? path)
    | .document d => (itemAt? d.lines index).bind (fun l ↦ (Node.line l).at? path)

end ScriptSpans
