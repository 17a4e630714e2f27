import ScriptSpans.Category

namespace ScriptSpans

/-- A run of a line, already escaped, and its category. -/
structure Span where
  category : Category
  text : String
deriving DecidableEq, Repr

end ScriptSpans
