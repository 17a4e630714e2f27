import ScriptSpans.Category

namespace ScriptSpans

inductive Styling
  | bare
  | classed (name : String)
deriving DecidableEq, Repr

abbrev ClassMap := Category → Option Styling

namespace ClassMap

def standard : ClassMap
  | .comment => some (.classed "hl-cmt")
  | .templateString => some (.classed "hl-str")
  | .string => some (.classed "hl-str")
  | .keyword => some (.classed "hl-kw")
  | .typeName => some (.classed "hl-cls")
  | .number => some (.classed "hl-num")
  | .functionCall => some (.classed "hl-fn")
  | .propertyKey => some (.classed "hl-prop")
  | .plain => some .bare

def ofList (entries : List (Category × Styling)) : ClassMap := fun c ↦ entries.lookup c

end ClassMap

end ScriptSpans
