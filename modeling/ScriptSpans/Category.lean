namespace ScriptSpans

/-- Listed in order of precedence: what an earlier category covers, a later one never sees.
Everything that no other category covers is plain. -/
inductive Category
  | comment
  | templateString
  | string
  | keyword
  | typeName
  | number
  | functionCall
  | propertyKey
  | plain
deriving DecidableEq, Repr

namespace Category

def all : List Category :=
  [comment, templateString, string, keyword, typeName, number, functionCall, propertyKey, plain]

def name : Category → String
  | comment => "COMMENT"
  | templateString => "TEMPLATE_STRING"
  | string => "STRING"
  | keyword => "KEYWORD"
  | typeName => "TYPE_NAME"
  | number => "NUMBER"
  | functionCall => "FUNCTION_CALL"
  | propertyKey => "PROPERTY_KEY"
  | plain => "PLAIN"

def rank : Category → Nat
  | comment => 1
  | templateString => 2
  | string => 3
  | keyword => 4
  | typeName => 5
  | number => 6
  | functionCall => 7
  | propertyKey => 8
  | plain => 9

def ofName? (name : String) : Option Category := all.find? (fun c ↦ c.name = name)

theorem ofName?_name (c : Category) : ofName? c.name = some c := by cases c <;> decide

end Category

end ScriptSpans
