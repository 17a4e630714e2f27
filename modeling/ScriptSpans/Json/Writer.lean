import ScriptSpans.Json.Value

namespace ScriptSpans.Json

/-- Blanks put before an item for each level it is nested, or `none` for a text on one line. -/
abbrev Layout := Option Int

def Layout.newline (layout : Layout) (depth : Nat) : List Char :=
  match layout with
  | none => []
  | some width => '\n' :: List.replicate (width.toNat * depth) ' '

def Layout.separator (layout : Layout) (depth : Nat) : List Char :=
  match layout with
  | none => [',', ' ']
  | some _ => ',' :: layout.newline depth

def escapeChar (c : Char) : List Char :=
  if c = '\x22' ∨ c = '\x5c' then ['\x5c', c]
  else if c = '\n' then ['\x5c', 'n']
  else if c = '\r' then ['\x5c', 'r']
  else if c = '\t' then ['\x5c', 't']
  else if c = '\x08' then ['\x5c', 'b']
  else if c = '\x0c' then ['\x5c', 'f']
  else if c.toNat < 0x20 then '\x5c' :: 'u' :: Text.hex 4 c.toNat
  else [c]

def writeString (s : String) : List Char :=
  '\x22' :: s.toList.flatMap escapeChar ++ ['\x22']

def Layout.enclose (layout : Layout) (depth : Nat) (left right : Char) (items : List (List Char)) :
    List Char :=
  if items.isEmpty then [left, right]
  else
    left :: layout.newline (depth + 1) ++ (layout.separator (depth + 1)).intercalate items ++
      layout.newline depth ++ [right]

mutual

def writeAt (layout : Layout) (depth : Nat) : Value → List Char
  | .null => ['n', 'u', 'l', 'l']
  | .boolean true => ['t', 'r', 'u', 'e']
  | .boolean false => ['f', 'a', 'l', 's', 'e']
  | .integer n => (toString n).toList
  | .real x => (Decimal.Format.json.write x).toList
  | .string s => writeString s
  | .array items => layout.enclose depth '[' ']' (writeItems layout (depth + 1) items)
  | .object members =>
    let written := writeMembers layout (depth + 1) members
    let sorted := written.mergeSort (fun a b ↦ decide (a.1 ≤ b.1))
    layout.enclose depth '\x7b' '\x7d' (sorted.map Prod.snd)
termination_by structural value => value

def writeItems (layout : Layout) (depth : Nat) : List Value → List (List Char)
  | [] => []
  | item :: items => writeAt layout depth item :: writeItems layout depth items
termination_by structural items => items

def writeMembers (layout : Layout) (depth : Nat) :
    List (String × Value) → List (String × List Char)
  | [] => []
  | (name, value) :: members =>
    (name, writeString name ++ [':', ' '] ++ writeAt layout depth value) ::
      writeMembers layout depth members
termination_by structural members => members

end

def Value.write (layout : Layout) (value : Value) : String :=
  String.ofList (writeAt layout 0 value)

end ScriptSpans.Json
