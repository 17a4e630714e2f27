import ScriptSpans.Text.Numeral
import Mathlib.Algebra.Group.Int.Defs
import Mathlib.Algebra.Group.Nat.Defs

namespace ScriptSpans.Text

theorem digitLimit_pos : 0 < digitLimit := by decide +kernel

theorem length_toDigits_le_digitLimit_iff {n : Nat} :
    (Nat.toDigits 10 n).length ≤ digitLimit ↔ n < 10 ^ digitLimit :=
  Nat.length_toDigits_le_iff (by decide) digitLimit_pos

theorem numeral?_of_lt {n : Int} (h : n.natAbs < 10 ^ digitLimit) :
    numeral? n = some (toString n) :=
  if_neg (Nat.not_lt.mpr (length_toDigits_le_digitLimit_iff.mpr h))

theorem numeral?_eq_none_iff {n : Int} : numeral? n = none ↔ 10 ^ digitLimit ≤ n.natAbs := by
  rw [← Nat.not_lt, ← length_toDigits_le_digitLimit_iff, Nat.not_le, numeral?]
  split <;> simp [*]

theorem numeral?_pow_digitLimit : numeral? (10 ^ digitLimit) = none := by
  rw [numeral?_eq_none_iff, Int.natAbs_pow]
  exact Nat.le_refl _

theorem ten_le_pow_digitLimit : 10 ≤ 10 ^ digitLimit :=
  Nat.le_self_pow (Nat.ne_of_gt digitLimit_pos) 10

end ScriptSpans.Text
