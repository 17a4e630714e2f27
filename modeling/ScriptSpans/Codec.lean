import ScriptSpans.Json.Reader
import ScriptSpans.Json.Writer
import ScriptSpans.Node

namespace ScriptSpans

open Json

inductive CodecError
  | notNode (found : Kind)
  | notObject (found : Kind)
  | unknownType (found : Value)
  | compoundType (found : Kind)
  | unwritableType
  | missingField (node : NodeKind) (field : String)
  | wrongField (node : NodeKind) (field : String) (wanted found : Kind)
  | unknownCategory (name : String)
  | wrongChild (wanted found : NodeKind)
  | invalidText (flaw : Flaw) (place : Place)
  | hugeInteger (digits : Nat)

namespace CodecError

def message : CodecError → String
  | notNode found => s!"Cannot serialize {found.name}"
  | notObject found => s!"Expected an object, got {found.name}"
  | unknownType found => s!"Unknown node type: {found.shown}"
  | compoundType found => s!"unhashable type: '{found.name}'"
  | unwritableType => Text.unwritable
  | missingField node field => s!"{node.name} is missing field {Text.quoted field}"
  | wrongField node field wanted found =>
    s!"{node.name}.{field} must be {wanted.name}, got {found.name}"
  | unknownCategory name => s!"Unknown category: {Text.quoted name}"
  | wrongChild wanted found => s!"Expected {wanted.name}, got {found.name}"
  | invalidText flaw place => s!"Invalid JSON: {(ReadError.invalid flaw place).message}"
  | hugeInteger digits => (ReadError.hugeInteger digits).message

def ofReadError : ReadError → CodecError
  | .invalid flaw place => invalidText flaw place
  | .hugeInteger digits => hugeInteger digits

end CodecError

def Span.toValue (span : Span) : Value :=
  .object [("_type", .string NodeKind.span.name), ("text", .string span.text),
    ("category", .string span.category.name)]

def Line.toValue (line : Line) : Value :=
  .object [("_type", .string NodeKind.line.name), ("lineno", .integer line.lineno),
    ("spans", .array (line.spans.map Span.toValue))]

def Document.toValue (doc : Document) : Value :=
  .object [("_type", .string NodeKind.document.name),
    ("lines", .array (doc.lines.map Line.toValue))]

def Node.toValue : Node → Value
  | .span s => s.toValue
  | .line l => l.toValue
  | .document d => d.toValue

def Node.toJson (layout : Layout) (node : Node) : String := node.toValue.write layout

/-- What a caller hands over to be written: a node, or a value that is none. -/
inductive Subject
  | node (node : Node)
  | other (value : Value)

def Subject.node? : Subject → Except CodecError Node
  | .node n => .ok n
  | .other value => .error (.notNode value.kind)

namespace Codec

/-- One kind of value, by what its values are made of. -/
structure Shape (α : Type) where
  kind : Kind
  make : α → Value
  read? : Value → Option α
  read?_eq_some_iff : ∀ {value : Value} {a : α}, read? value = some a ↔ value = make a

namespace Shape

def string : Shape String where
  kind := .string
  make := .string
  read? value := if let .string s := value then some s else none
  read?_eq_some_iff {value} _ := by cases value <;> simp

def integer : Shape Int where
  kind := .integer
  make := .integer
  read? value := if let .integer n := value then some n else none
  read?_eq_some_iff {value} _ := by cases value <;> simp

def array : Shape (List Value) where
  kind := .array
  make := .array
  read? value := if let .array items := value then some items else none
  read?_eq_some_iff {value} _ := by cases value <;> simp

end Shape

structure Part (α : Type) where
  kind : NodeKind
  make : α → Node
  read? : Node → Option α
  read?_eq_some_iff : ∀ {node : Node} {a : α}, read? node = some a ↔ node = make a
  isSome_read?_iff : ∀ {node : Node}, (read? node).isSome ↔ node.kind = kind

namespace Part

def span : Part Span where
  kind := .span
  make := .span
  read? node := if let .span s := node then some s else none
  read?_eq_some_iff {node} _ := by cases node <;> simp
  isSome_read?_iff {node} := by cases node <;> simp [Node.kind]

def line : Part Line where
  kind := .line
  make := .line
  read? node := if let .line l := node then some l else none
  read?_eq_some_iff {node} _ := by cases node <;> simp
  isSome_read?_iff {node} := by cases node <;> simp [Node.kind]

end Part

/-- The error on a value that names no kind of node. An array or an object cannot be looked for
among the names, and an integer without a numeral cannot be shown. -/
def refusal : Value → CodecError
  | .array _ => .compoundType .array
  | .object _ => .compoundType .object
  | .integer n =>
    match Text.numeral? n with
    | none => .unwritableType
    | some _ => .unknownType (.integer n)
  | other => .unknownType other

def kindOf (members : List (String × Value)) : Except CodecError NodeKind :=
  match lookup? members "_type" with
  | some (.string "Span") => .ok .span
  | some (.string "Line") => .ok .line
  | some (.string "Document") => .ok .document
  | found => .error (refusal (found.getD .null))

def field {α : Type} (shape : Shape α) (node : NodeKind) (members : List (String × Value))
    (name : String) : Except CodecError α :=
  match lookup? members name with
  | none => .error (.missingField node name)
  | some value =>
    match shape.read? value with
    | none => .error (.wrongField node name shape.kind value.kind)
    | some a => .ok a

def categoryOf (name : String) : Except CodecError Category :=
  match Category.ofName? name with
  | none => .error (.unknownCategory name)
  | some c => .ok c

def asPart {α : Type} (part : Part α) (node : Node) : Except CodecError α :=
  match part.read? node with
  | none => .error (.wrongChild part.kind node.kind)
  | some a => .ok a

/-- The members of a list under a check; the first that failed, or fails the check, decides. -/
def collect {α : Type} (check : Node → Except CodecError α) :
    List (Except CodecError Node) → Except CodecError (List α)
  | [] => .ok []
  | .error e :: _ => .error e
  | .ok node :: later =>
    match check node with
    | .error e => .error e
    | .ok a => (collect check later).map (a :: ·)

/-- What the items of an object's arrays stand for, by the names of the members that hold them. -/
abbrev Children := List (String × List (Except CodecError Node))

def partsOf {α : Type} (part : Part α) (node : NodeKind) (name : String)
    (members : List (String × Value)) (children : Children) : Except CodecError (List α) := do
  let _ ← field .array node members name
  collect (asPart part) ((lookup? children name).getD [])

def spanOf (members : List (String × Value)) : Except CodecError Span := do
  let text ← field .string .span members "text"
  let category ← categoryOf (← field .string .span members "category")
  return ⟨category, text⟩

def lineOf (members : List (String × Value)) (children : Children) : Except CodecError Line := do
  let spans ← partsOf .span .line "spans" members children
  let lineno ← field .integer .line members "lineno"
  return ⟨spans, lineno⟩

def documentOf (members : List (String × Value)) (children : Children) :
    Except CodecError Document := do
  let lines ← partsOf .line .document "lines" members children
  return ⟨lines⟩

def ofObject (members : List (String × Value)) (children : Children) : Except CodecError Node :=
  match kindOf members with
  | .error e => .error e
  | .ok .span => (spanOf members).map .span
  | .ok .line => (lineOf members children).map .line
  | .ok .document => (documentOf members children).map .document

mutual

def node : Value → Except CodecError Node
  | .object members => ofObject members (childrenOf members)
  | other => .error (.notObject other.kind)
termination_by structural value => value

def childrenOf : List (String × Value) → Children
  | [] => []
  | (name, value) :: members => (name, itemsOf value) :: childrenOf members
termination_by structural members => members

def itemsOf : Value → List (Except CodecError Node)
  | .array items => nodes items
  | _ => []
termination_by structural value => value

def nodes : List Value → List (Except CodecError Node)
  | [] => []
  | item :: items => node item :: nodes items
termination_by structural items => items

end

end Codec

def Node.ofValue (value : Value) : Except CodecError Node := Codec.node value

def Node.ofJson (text : String) : Except CodecError Node :=
  match Value.read text with
  | .error e => .error (CodecError.ofReadError e)
  | .ok value => Node.ofValue value

end ScriptSpans
