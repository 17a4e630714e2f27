namespace ScriptSpans.Text

/-- No numeral with more digits is read or written. A sign is no digit. -/
@[irreducible]
def digitLimit : Nat := 4300

def numeral? (n : Int) : Option String :=
  if digitLimit < (Nat.toDigits 10 n.natAbs).length then none else some (toString n)

/-- What is said of an integer whose numeral is too long. -/
def unwritable : String :=
  s!"Exceeds the limit ({digitLimit} digits) for integer string conversion; " ++
    "use sys.set_int_max_str_digits() to increase the limit"

end ScriptSpans.Text
