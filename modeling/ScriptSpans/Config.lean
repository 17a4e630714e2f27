import ScriptSpans.Json.Value

namespace ScriptSpans

/-- Lines with more characters than `maxLineLength` become one plain span; `trimSnippet` takes the
blanks off both ends of a snippet first. -/
structure Config where
  maxLineLength : Option Nat := none
  trimSnippet : Bool := false
deriving DecidableEq, Repr

inductive ConfigFault
  | negativeLimit
  | incomparableLimit (found : Json.Kind)
deriving DecidableEq, Repr

namespace ConfigFault

def describe (field detail : String) : String :=
  s!"Config '{field}': {detail}"

def message : ConfigFault → String
  | negativeLimit => describe "max_line_length" "must be >= 0 or None"
  | incomparableLimit found =>
    s!"'<' not supported between instances of '{found.name}' and 'int'"

end ConfigFault

namespace Config

open Json

/-- A limit is compared with zero, so it has to be a number; a fraction of a character does not
count. -/
def limitOf : Value → Except ConfigFault (Option Nat)
  | .null => .ok none
  | .boolean b => .ok (some b.toNat)
  | .integer n => if n < 0 then .error .negativeLimit else .ok (some n.toNat)
  | .real x =>
    if x < 0 then .error .negativeLimit
    else .ok (if x.isFinite then some x.toUInt64.toNat else none)
  | other => .error (.incomparableLimit other.kind)

def switchOf : Value → Bool
  | .null => false
  | .boolean b => b
  | .integer n => n ≠ 0
  | .real x => x != 0
  | .string s => !s.isEmpty
  | .array items => !items.isEmpty
  | .object members => !members.isEmpty

def ofMembers (members : List (String × Value)) : Except ConfigFault Config :=
  (limitOf ((lookup? members "max_line_length").getD .null)).map
    (⟨·, ((lookup? members "trim_snippet").map switchOf).getD false⟩)

end Config

end ScriptSpans
