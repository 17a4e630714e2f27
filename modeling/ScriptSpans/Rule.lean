import ScriptSpans.Word

namespace ScriptSpans

open Lexicon

abbrev Rule := Ownership → Word → Except Fault (Option Claim)

namespace Rule

def keyword : Rule := fun _ w ↦
  .ok (if isKeyword w.chars then some (w.claim .keyword) else none)

/-- Capitalised words, except before a closing angle bracket. -/
def typeName (closing : Array Bool) : Rule := fun _ w ↦
  if w.firstIs Char.isUpper then
    match closing[w.stop]? with
    | none => .error (.outside w.stop)
    | some true => .ok none
    | some false => .ok (some (w.claim .typeName))
  else .ok none

/-- Lengths of the numbers whose integer part has the length `whole`, the longest first, given the
text after it: with a point and further digits, and without. -/
def lengthsBefore (whole : Nat) : List Char → List Nat
  | '.' :: rest =>
    let fraction := (rest.takeWhile Char.isDigit).length
    if fraction = 0 then [whole] else [whole + 1 + fraction, whole]
  | _ => [whole]

def numberLengths (text : List Char) : List Nat :=
  let whole := (text.takeWhile isDigitOrBreak).length
  lengthsBefore whole (text.drop whole)

/-- Length of the number at a word: the longest that touches no guard character on either side. The
entities need no decoding here, for neither the first nor the last character of one is a guard. -/
def numberLength? (w : Word) : Option Nat :=
  if w.firstIs Char.isDigit ∧ ¬ w.previous.any isGuard then
    let text := w.chars ++ w.after
    (numberLengths text).find? (fun length ↦ !(text.drop length).head?.any isGuard)
  else none

/-- Decimal numbers. A fraction reaches over the word that holds its digits, which the number before
it may have taken since the pass began. -/
def number : Rule := fun ownership w ↦
  .ok <|
    if ownership.isOwned w.start then none
    else (numberLength? w).map (fun length ↦ ⟨w.start, length, .number⟩)

def follower? (w : Word) : Option Char := (w.after.dropWhile isInlineBlank).head?

def callOrKey : Rule := fun _ w ↦
  .ok <|
    if w.firstIs startsName then
      if follower? w = some '(' then some (w.claim .functionCall)
      else if follower? w = some ':' then some (w.claim .propertyKey)
      else none
    else none

def all (closing : Array Bool) : List Rule :=
  [keyword, typeName closing, number, callOrKey]

def apply (rule : Rule) (ownership : Ownership) (w : Word) : Except Fault Ownership :=
  match rule ownership w with
  | .error fault => .error fault
  | .ok none => .ok ownership
  | .ok (some c) => ownership.grant c

/-- Applies a rule to the words that nobody owns when the pass begins. -/
def pass (words : List Word) (ownership : Ownership) (rule : Rule) : Except Fault Ownership :=
  (words.filter (fun w ↦ !ownership.isOwned w.start)).foldlM rule.apply ownership

end Rule

end ScriptSpans
