namespace ScriptSpans.Text

/-- Replaces the occurrences of `pattern`; the number counts the characters of the last occurrence
that are still to be passed over. An empty pattern occurs nowhere. -/
def substituteFrom (pattern replacement : List Char) : Nat → List Char → List Char
  | _, [] => []
  | skip + 1, _ :: rest => substituteFrom pattern replacement skip rest
  | 0, c :: rest =>
    if pattern ≠ [] ∧ pattern.isPrefixOf (c :: rest) then
      replacement ++ substituteFrom pattern replacement (pattern.length - 1) rest
    else
      c :: substituteFrom pattern replacement 0 rest

def substitute (pattern replacement text : List Char) : List Char :=
  substituteFrom pattern replacement 0 text

end ScriptSpans.Text
