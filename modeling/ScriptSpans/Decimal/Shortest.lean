namespace ScriptSpans.Decimal

/-- The positive number `mantissa * 2 ^ exponent` with the reals that round to it, in quarters of
its last place: from `4 * mantissa - below` to `4 * mantissa + 2`, both ends included when
`closed`. -/
structure Rounded where
  mantissa : Nat
  exponent : Int
  below : Nat
  closed : Bool

structure Scientific where
  digits : Nat
  exponent : Int
deriving Repr, DecidableEq

def power (base : Nat) (exponent : Int) : Nat := Nat.pow base exponent.toNat

/-- Compares `a * 2 ^ p` with `b * 10 ^ e`, each factor of a negative power on the other side. -/
def compareScaled (a : Nat) (p : Int) (b : Nat) (e : Int) : Ordering :=
  compare (a * power 2 p * power 10 (-e)) (b * power 10 e * power 2 (-p))

def Rounded.contains (r : Rounded) (s : Scientific) : Bool :=
  let lower := compareScaled (4 * r.mantissa - r.below) (r.exponent - 2) s.digits s.exponent
  let upper := compareScaled (4 * r.mantissa + 2) (r.exponent - 2) s.digits s.exponent
  if r.closed then lower.isLE && upper.isGE else lower.isLT && upper.isGT

/-- Largest multiple of `10 ^ e`, counted in that unit, which does not exceed the number. -/
def Rounded.floor (r : Rounded) (e : Int) : Nat :=
  r.mantissa * power 2 r.exponent * power 10 (-e) / (power 10 e * power 2 (-r.exponent))

def digitCount (n : Nat) : Nat := (Nat.toDigits 10 n).length

/-- Exponent of the leading digit. Every number in question is at least `10 ^ (-400)`. -/
def Rounded.magnitude (r : Rounded) : Int :=
  (digitCount (r.floor (-400)) : Int) - 401

/-- Whether the number lies nearer to the multiple `n` of `10 ^ e` than to `n + 1`; from the middle
the even one of the two is taken. -/
def Rounded.nearerBelow (r : Rounded) (n : Nat) (e : Int) : Bool :=
  match compareScaled (2 * r.mantissa) r.exponent (2 * n + 1) e with
  | .lt => true
  | .gt => false
  | .eq => n % 2 == 0

def Rounded.onGrid? (r : Rounded) (e : Int) : Option Scientific :=
  let n := r.floor e
  let lower : Scientific := ⟨n, e⟩
  let upper : Scientific := ⟨n + 1, e⟩
  match r.contains lower, r.contains upper with
  | true, true => some (if r.nearerBelow n e then lower else upper)
  | true, false => some lower
  | false, true => some upper
  | false, false => none

/-- Tries one digit, two digits and so on; seventeen always suffice for the fractions in use. -/
def Rounded.shortest (r : Rounded) : Scientific :=
  let leading := r.magnitude
  ((List.range 17).findSome? (fun (k : Nat) ↦ r.onGrid? (leading - k))).getD
    ⟨r.floor (leading - 16), leading - 16⟩

def Scientific.stripZeros : Nat → Scientific → Scientific
  | 0, s => s
  | fuel + 1, s =>
    if s.digits % 10 = 0 ∧ s.digits ≠ 0 then
      Scientific.stripZeros fuel ⟨s.digits / 10, s.exponent + 1⟩
    else s

def fractionCount : Nat := 0x10000000000000

/-- The double with these bits, sign aside, if it is finite and not zero. -/
def Rounded.ofBits (bits : UInt64) : Option Rounded :=
  let fraction : Nat := bits.toNat % fractionCount
  let biased : Nat := bits.toNat / fractionCount % 2048
  if biased = 2047 ∨ (biased = 0 ∧ fraction = 0) then none
  else if biased = 0 then some ⟨fraction, -1074, 2, fraction % 2 == 0⟩
  else
    some ⟨fractionCount + fraction, (biased : Int) - 1075,
      if fraction = 0 ∧ 1 < biased then 1 else 2, fraction % 2 == 0⟩

end ScriptSpans.Decimal
