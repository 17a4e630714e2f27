import ScriptSpans.Decimal.Shortest

namespace ScriptSpans.Decimal

/-- How real numbers are written. A number whose leading digit has an exponent from `least` to below
`limit` is positional; an exponent has a sign and at least `width` digits. -/
structure Format where
  least : Int
  limit : Int
  width : Nat
  infinity : String
  notANumber : String

def Format.message : Format := ⟨-4, 16, 2, "inf", "nan"⟩

def Format.json : Format := ⟨-4, 16, 2, "Infinity", "NaN"⟩

def padLeft (width : Nat) (digits : String) : String :=
  String.ofList (List.replicate (width - digits.length) '0') ++ digits

def Format.positive (f : Format) (s : Scientific) : String :=
  let digits := (toString s.digits).toList
  let leading : Int := s.exponent + digits.length - 1
  if f.least ≤ leading ∧ leading < f.limit then
    if 0 ≤ s.exponent then
      String.ofList (digits ++ List.replicate s.exponent.toNat '0') ++ ".0"
    else if 0 ≤ leading then
      String.ofList (digits.take (leading.toNat + 1) ++ '.' :: digits.drop (leading.toNat + 1))
    else
      "0." ++ String.ofList (List.replicate (-leading - 1).toNat '0' ++ digits)
  else
    let fraction := digits.drop 1
    let point := if fraction.isEmpty then "" else "." ++ String.ofList fraction
    let sign := if leading < 0 then "-" else "+"
    String.ofList (digits.take 1) ++ point ++ "e" ++ sign ++
      padLeft f.width (toString leading.natAbs)

def Format.write (f : Format) (x : Float) : String :=
  if x.isNaN then f.notANumber
  else
    let sign := if 0x8000000000000000 ≤ x.toBits.toNat then "-" else ""
    if x.isInf then sign ++ f.infinity
    else
      match Rounded.ofBits x.toBits with
      | none => sign ++ "0.0"
      | some r => sign ++ f.positive (r.shortest.stripZeros 17)

/-- The double nearest to `s`. Decimals far beyond the doubles are settled by their magnitude. -/
def Scientific.toFloat (s : Scientific) : Float :=
  let magnitude : Int := s.exponent + digitCount s.digits
  if s.digits = 0 ∨ magnitude < -400 then 0.0
  else if 400 < magnitude then 1.0 / 0.0
  else Float.ofScientific s.digits (s.exponent < 0) s.exponent.natAbs

end ScriptSpans.Decimal
