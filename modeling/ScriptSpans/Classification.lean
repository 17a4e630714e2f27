import ScriptSpans.Angle
import ScriptSpans.Region
import ScriptSpans.Rule
import ScriptSpans.Span

namespace ScriptSpans

namespace Classification

def plainSpan (text : List Char) : List Span :=
  if text.isEmpty then [] else [⟨.plain, String.ofList text⟩]

/-- The spans of a text that begins at `position`, under claims sorted by their start. -/
def fill (position : Nat) (text : List Char) : List Claim → List Span
  | [] => plainSpan text
  | c :: later =>
    let (gap, claimed) := text.splitAt (c.start - position)
    let (own, rest) := claimed.splitAt c.length
    plainSpan gap ++ ⟨c.category, String.ofList own⟩ :: fill c.stop rest later

end Classification

/-- A line in markup with what is known of it so far: where its code ends, who owns its positions,
and its words. -/
structure Slate where
  text : List Char
  codeEnd : Nat
  ownership : Ownership
  words : List Word

namespace Slate

def blank : Slate := ⟨[], 0, .free 0, []⟩

/-- Puts the next line on the slate. Nothing of it is owned, and all of it is code until a comment
is found. -/
def put (slate : Slate) (text : List Char) : Slate :=
  { slate with text, codeEnd := text.length, ownership := .free text.length, words := [] }

def grantAll (slate : Slate) (claims : List Claim) : Except Fault Slate := do
  return { slate with ownership := ← claims.foldlM Ownership.grant slate.ownership }

def claimComment (slate : Slate) : Except Fault Slate :=
  let start? := Region.commentStart? 0 0 slate.text
  { slate with codeEnd := start?.getD slate.codeEnd }.grantAll (Region.comment slate.text)

def claimLiterals (slate : Slate) : Except Fault Slate :=
  slate.grantAll (Region.literalsFrom slate.codeEnd 0 0 slate.text)

def collectWords (slate : Slate) : Slate :=
  { slate with words := Word.ofText slate.ownership slate.text }

def pass (slate : Slate) (rule : Rule) : Except Fault Slate := do
  return { slate with ownership := ← Rule.pass slate.words slate.ownership rule }

def classify (slate : Slate) : Except Fault Slate := do
  let slate ← slate.claimComment
  let slate ← slate.claimLiterals
  let slate := slate.collectWords
  let closing := Angle.closing slate.ownership slate.codeEnd slate.text
  (Rule.all closing).foldlM pass slate

def spans (slate : Slate) : List Span :=
  Classification.fill 0 slate.text
    (slate.ownership.claims.mergeSort (fun a b ↦ decide (a.start ≤ b.start)))

end Slate

namespace Classification

def claims (text : List Char) : Except Fault (List Claim) := do
  return (← (Slate.blank.put text).classify).ownership.claims

def spans? (text : List Char) : Except Fault (List Span) := do
  return (← (Slate.blank.put text).classify).spans

end Classification

end ScriptSpans
