import ScriptSpans.Decimal.Real
import ScriptSpans.Text.Quoted

namespace ScriptSpans.Json

inductive Value
  | null
  | boolean (b : Bool)
  | integer (n : Int)
  | real (x : Float)
  | string (s : String)
  | array (items : List Value)
  | object (members : List (String × Value))
deriving Inhabited

inductive Kind
  | null | boolean | integer | real | string | array | object
deriving DecidableEq, Repr

def Kind.name : Kind → String
  | .null => "NoneType"
  | .boolean => "bool"
  | .integer => "int"
  | .real => "float"
  | .string => "str"
  | .array => "list"
  | .object => "dict"

def Value.kind : Value → Kind
  | .null => .null
  | .boolean _ => .boolean
  | .integer _ => .integer
  | .real _ => .real
  | .string _ => .string
  | .array _ => .array
  | .object _ => .object

/-- What the last member with this name holds. -/
def lookup? {α : Type} (members : List (String × α)) (name : String) : Option α :=
  members.foldl (fun found member ↦ if member.1 = name then some member.2 else found) none

mutual

def Value.shown : Value → String
  | .null => "None"
  | .boolean true => "True"
  | .boolean false => "False"
  | .integer n => toString n
  | .real x => Decimal.Format.message.write x
  | .string s => Text.quoted s
  | .array items => "[" ++ ", ".intercalate (shownItems items) ++ "]"
  | .object members => "\x7b" ++ ", ".intercalate (shownMembers members) ++ "\x7d"
termination_by structural value => value

def shownItems : List Value → List String
  | [] => []
  | item :: items => item.shown :: shownItems items
termination_by structural items => items

def shownMembers : List (String × Value) → List String
  | [] => []
  | (name, value) :: members => (Text.quoted name ++ ": " ++ value.shown) :: shownMembers members
termination_by structural members => members

end

end ScriptSpans.Json
