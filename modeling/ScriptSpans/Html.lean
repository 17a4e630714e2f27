import ScriptSpans.ClassMap
import ScriptSpans.Document
import ScriptSpans.Text.Numeral

namespace ScriptSpans

namespace Html

/-- Why a document is not written: a span without a class, by the message on it, or a number without
a numeral. -/
inductive Fault
  | uncovered (message : String)
  | unwritable
deriving DecidableEq, Repr

def Fault.message : Fault → String
  | uncovered message => message
  | unwritable => Text.unwritable

/-- The fault of a span without a class. Its message shows the number of the line. -/
def Fault.ofSpan (category : Category) (lineno : Int) : Fault :=
  match Text.numeral? lineno with
  | none => .unwritable
  | some numeral => .uncovered
      s!"No CSS class for category <Category.{category.name}: {category.rank}> on line {numeral}"

def spanElement (className body : String) : String :=
  "<span class=\"" ++ className ++ "\">" ++ body ++ "</span>"

def divElement (className body : String) : String :=
  "<div class=\"" ++ className ++ "\">" ++ body ++ "</div>"

def styled (text : String) : Styling → String
  | .bare => text
  | .classed name => spanElement name text

def ofSpans (classes : ClassMap) (lineno : Int) : List Span → Except Fault String
  | [] => .ok ""
  | span :: later =>
    match classes span.category with
    | none => .error (.ofSpan span.category lineno)
    | some styling => (ofSpans classes lineno later).map (styled span.text styling ++ ·)

def ofLine (classes : ClassMap) (line : Line) : Except Fault String :=
  ofSpans classes line.lineno line.spans

/-- Every line as `finish` leaves it, up to the first that is not written. -/
def ofLines (classes : ClassMap) (finish : Line → String → Except Fault String) :
    List Line → Except Fault (List String)
  | [] => .ok []
  | line :: later =>
    match (ofLine classes line).bind (finish line) with
    | .error e => .error e
    | .ok markup => (ofLines classes finish later).map (markup :: ·)

def ofDocument (classes : ClassMap) (doc : Document) : Except Fault String :=
  (ofLines classes (fun _ body ↦ .ok body) doc.lines).map "\n".intercalate

structure BlockOptions where
  header : Option String := none
  language : Option String := none
  emphasized : List Int := []
  numbered : Bool := false
deriving DecidableEq, Repr

def BlockOptions.decorated (options : BlockOptions) (lineno : Int) (numeral body : String) :
    String :=
  let body := if options.numbered then spanElement "lineno" numeral ++ body else body
  if lineno ∈ options.emphasized then spanElement "hll" body else body

def BlockOptions.finish (options : BlockOptions) (numeral? : Int → Option String) (line : Line)
    (body : String) : Except Fault String :=
  match if options.numbered then numeral? line.lineno else some "" with
  | none => .error .unwritable
  | some numeral => .ok (options.decorated line.lineno numeral body)

def languageAttribute (language : Option String) : String :=
  match language with
  | none => ""
  | some name =>
    if name.isEmpty then "" else " class=\"language-" ++ Markup.escapeAttribute name ++ "\""

def headerElement (header : Option String) : String :=
  match header with
  | none => ""
  | some label => divElement "code-header" (spanElement "code-label" (Markup.escapeAttribute label))

def block (header language : Option String) (code : String) : String :=
  divElement "code-block"
    (headerElement header ++ "<pre><code" ++ languageAttribute language ++ ">" ++ code ++
      "</code></pre>")

def blockBy (numeral? : Int → Option String) (classes : ClassMap) (options : BlockOptions)
    (doc : Document) : Except Fault String :=
  (ofLines classes (options.finish numeral?) doc.lines).map
    (fun lines ↦ block options.header options.language ("\n".intercalate lines))

/-- The block of a document that a caller has built, with whatever numbers. -/
def codeBlock (classes : ClassMap) (options : BlockOptions) (doc : Document) :
    Except Fault String :=
  blockBy Text.numeral? classes options doc

/-- The block of a classified document. Its numbers count its lines, so each has a numeral. -/
def blockOf (classes : ClassMap) (options : BlockOptions) (doc : Document) :
    Except Fault String :=
  blockBy (fun n ↦ some (toString n)) classes options doc

end Html

end ScriptSpans
