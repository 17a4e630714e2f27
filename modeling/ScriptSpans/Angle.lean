import ScriptSpans.Ownership

namespace ScriptSpans.Angle

def left : List Char := ['&', 'l', 't', ';']

def right : List Char := ['&', 'g', 't', ';']

/-- For each position up to `limit` of a text that begins at `position`, and for the end of it:
whether the text from there on comes to a closing bracket before any opening bracket, literal or the
limit. -/
def closingFrom (isOwned : Nat → Bool) (limit position : Nat) : List Char → List Bool
  | [] => [false]
  | c :: rest =>
    if limit ≤ position then [false]
    else
      let later := closingFrom isOwned limit (position + 1) rest
      let here :=
        if isOwned position then false
        else if left.isPrefixOf (c :: rest) then false
        else if right.isPrefixOf (c :: rest) then true
        else later.head?.getD false
      here :: later

def closing (ownership : Ownership) (limit : Nat) (text : List Char) : Array Bool :=
  (closingFrom ownership.isOwned limit 0 text).toArray

end ScriptSpans.Angle
