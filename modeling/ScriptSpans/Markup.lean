import ScriptSpans.Text.Substitute

namespace ScriptSpans.Markup

structure Entity where
  char : Char
  name : List Char

/-- The entities of running text. The ampersand comes first: escaping in this order never escapes
the ampersand of an entity that was just written. -/
def entities : List Entity :=
  [⟨'&', ['&', 'a', 'm', 'p', ';']⟩, ⟨'<', ['&', 'l', 't', ';']⟩, ⟨'>', ['&', 'g', 't', ';']⟩]

def attributeEntities : List Entity :=
  entities ++ [⟨'\x22', ['&', 'q', 'u', 'o', 't', ';']⟩, ⟨'\x27', ['&', '#', 'x', '2', '7', ';']⟩]

def escapeBy (table : List Entity) (text : List Char) : List Char :=
  table.foldl (fun text e ↦ Text.substitute [e.char] e.name text) text

def unescapeBy (table : List Entity) (text : List Char) : List Char :=
  table.foldr (fun e text ↦ Text.substitute e.name [e.char] text) text

def escapeList (text : List Char) : List Char := escapeBy entities text

def unescapeList (text : List Char) : List Char := unescapeBy entities text

def escape (text : String) : String := String.ofList (escapeList text.toList)

def unescape (text : String) : String := String.ofList (unescapeList text.toList)

def escapeAttribute (text : String) : String :=
  String.ofList (escapeBy attributeEntities text.toList)

def entityLength? (text : List Char) : Option Nat :=
  (entities.find? (fun e ↦ e.name.isPrefixOf text)).map (fun e ↦ e.name.length)

end ScriptSpans.Markup
