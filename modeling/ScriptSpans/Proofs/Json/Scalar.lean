import ScriptSpans.Json.Reader
import ScriptSpans.Json.Writer
import ScriptSpans.Proofs.Numeral
import Mathlib.Tactic.SplitIfs

namespace ScriptSpans.Json

open Text

theorem hex_four (n : Nat) : hex 4 n =
    [hexDigit (n / 16 / 16 / 16 % 16), hexDigit (n / 16 / 16 % 16), hexDigit (n / 16 % 16),
      hexDigit (n % 16)] :=
  rfl

theorem hexWord?_hexDigit {n : Nat} (h : n < 0x10000) :
    hexWord? (hexDigit (n / 16 / 16 / 16 % 16)) (hexDigit (n / 16 / 16 % 16))
      (hexDigit (n / 16 % 16))
      (hexDigit (n % 16)) = some n := by
  have hdigit : ∀ m, hexValue? (hexDigit (m % 16)) = some (m % 16) :=
    fun m ↦ hexValue?_hexDigit _ (Nat.mod_lt m (by decide))
  simp only [hexWord?, hdigit, Option.pure_def, Option.bind_eq_bind, Option.bind_some,
    Option.some.injEq]
  omega

theorem readString_skip (opening read : List Char) (skip : Nat) (text : List Char) :
    readString opening read skip text = readString opening read 0 (text.drop skip) := by
  induction text generalizing skip with
  | nil => cases skip <;> rfl
  | cons c rest ih =>
    cases skip with
    | zero => rfl
    | succ skip => rw [readString, ih, List.drop_succ_cons]

theorem readString_named {opening read : List Char} {letter c : Char}
    (h : namedEscape? letter = some c) (rest : List Char) :
    readString opening read 0 ('\x5c' :: letter :: rest) =
      readString opening (c :: read) 0 rest := by
  have hletter : letter ≠ 'u' := by
    rintro rfl
    cases h
  have hescape : readEscape opening ('\x5c' :: letter :: rest) = .ok (c, 1) := by
    simp [readEscape, h]
  rw [readString, if_neg (by decide), if_pos rfl, hescape]
  exact readString_skip _ _ _ _

theorem readString_control {opening read : List Char} {c : Char} (h : c.toNat < 0x20)
    {rest : List Char} (hrest : rest ≠ []) :
    readString opening read 0 ('\x5c' :: 'u' :: hex 4 c.toNat ++ rest) =
      readString opening (c :: read) 0 rest := by
  obtain ⟨next, more, rfl⟩ := List.exists_cons_of_ne_nil hrest
  have hescape :
      readEscape opening ('\x5c' :: 'u' :: (hex 4 c.toNat ++ next :: more)) = .ok (c, 5) := by
    have hword := hexWord?_hexDigit (Nat.lt_trans h (by decide : 0x20 < 0x10000))
    have hhigh : ¬ (0xd800 ≤ c.toNat ∧ c.toNat < 0xdc00) := by omega
    have hlow : ¬ (0xdc00 ≤ c.toNat ∧ c.toNat < 0xe000) := by omega
    rw [hex_four]
    simp only [readEscape, List.drop_succ_cons, List.drop_zero, List.cons_append, List.nil_append,
      unicodeEscape, hword, if_neg hhigh, if_neg hlow, Char.ofNat_toNat]
  rw [List.cons_append, List.cons_append, readString, if_neg (by decide), if_pos rfl, hescape]
  exact readString_skip _ _ _ _

theorem readString_escapeChar (opening read : List Char) (c : Char) {rest : List Char}
    (hrest : rest ≠ []) :
    readString opening read 0 (escapeChar c ++ rest) = readString opening (c :: read) 0 rest := by
  unfold escapeChar
  split_ifs with hself hnewline hreturn htab hback hfeed hcontrol
  · rcases hself with rfl | rfl <;> exact readString_named rfl rest
  · rw [hnewline]; exact readString_named rfl rest
  · rw [hreturn]; exact readString_named rfl rest
  · rw [htab]; exact readString_named rfl rest
  · rw [hback]; exact readString_named rfl rest
  · rw [hfeed]; exact readString_named rfl rest
  · exact readString_control hcontrol hrest
  · rw [not_or] at hself
    rw [List.singleton_append, readString, if_neg hself.1, if_neg hself.2, if_neg hcontrol]

theorem readString_escape (opening read chars rest : List Char) :
    readString opening read 0 (chars.flatMap escapeChar ++ '\x22' :: rest) =
      .ok (String.ofList (read.reverse ++ chars), rest) := by
  induction chars generalizing read with
  | nil => rw [List.flatMap_nil, List.nil_append, readString, if_pos rfl, List.append_nil]
  | cons c chars ih =>
    rw [List.flatMap_cons, List.append_assoc, readString_escapeChar _ _ _ (by simp), ih,
      List.reverse_cons, List.append_assoc, List.singleton_append]

theorem readString_writeString (s : String) (rest : List Char) :
    ∃ inside, writeString s ++ rest = '\x22' :: inside ∧
      ∀ opening, readString opening [] 0 inside = .ok (s, rest) := by
  refine ⟨s.toList.flatMap escapeChar ++ '\x22' :: rest, ?_, fun opening ↦ ?_⟩
  · simp [writeString]
  · rw [readString_escape, List.reverse_nil, List.nil_append, String.ofList_toList]

def continuesNumber (c : Char) : Bool := c.isDigit || c = '.' || c = 'e' || c = 'E'

theorem readFraction_stop {rest : List Char} (h : rest.head?.any continuesNumber = false) :
    readFraction rest = ([], rest) := by
  cases rest with
  | nil => rfl
  | cons c rest =>
    have hc : c ≠ '.' := by
      rintro rfl
      cases h
    simp [readFraction, hc]

theorem readExponent_stop {rest : List Char} (h : rest.head?.any continuesNumber = false) :
    readExponent rest = (none, rest) := by
  cases rest with
  | nil => rfl
  | cons c rest =>
    have hc : ¬ (c = 'e' ∨ c = 'E') := by
      rintro (rfl | rfl) <;> cases h
    simp [readExponent, hc]

theorem head_toDigits_ne_zero {n : Nat} (h : n ≠ 0) : (Nat.toDigits 10 n).head? ≠ some '0' := by
  induction n using Nat.strongRecOn with
  | ind n ih =>
    rw [Nat.toDigits_eq_if (by decide)]
    split
    · rw [List.head?_cons, ne_eq, Option.some.injEq, Nat.digitChar_eq_zero]
      exact h
    · have hsome : (Nat.toDigits 10 (n / 10)).head?.isSome := by
        rw [List.isSome_head?]
        simp
      rw [List.head?_append, Option.or_of_isSome hsome]
      exact ih (n / 10) (by omega) (by omega)

theorem digitsValue_toDigits (n : Nat) : digitsValue (Nat.toDigits 10 n) = n := by
  have hfold : digitsValue (Nat.toDigits 10 n) = Nat.ofDigitChars 10 (Nat.toDigits 10 n) 0 := by
    rw [digitsValue, Nat.ofDigitChars_eq_foldl]
    congr 1
    funext total c
    rw [Nat.mul_comm]
    rfl
  rw [hfold, Nat.ofDigitChars_ten_toDigits]

theorem isDigit_of_mem_toDigits {n : Nat} {c : Char} (h : c ∈ Nat.toDigits 10 n) : c.isDigit :=
  Nat.isDigit_of_mem_toDigits (by decide) (by decide) h

theorem toDigits_eq_cons (n : Nat) : ∃ c more, Nat.toDigits 10 n = c :: more ∧ c.isDigit := by
  obtain ⟨c, more, hcons⟩ := List.exists_cons_of_ne_nil (Nat.toDigits_ne_nil (n := n) (b := 10))
  exact ⟨c, more, hcons, isDigit_of_mem_toDigits (hcons ▸ List.mem_cons_self)⟩

theorem toString_negSucc (n : Nat) :
    (toString (Int.negSucc n)).toList = '-' :: Nat.toDigits 10 (n + 1) := by
  have htext : toString (Int.negSucc n) = "-" ++ (n + 1).repr := rfl
  rw [htext, String.toList_append, Nat.toList_repr]
  rfl

theorem toString_eq_cons (n : Int) :
    ∃ c more, (toString n).toList = c :: more ∧ (c.isDigit ∨ c = '-') := by
  cases n with
  | ofNat n =>
    obtain ⟨c, more, hcons, hc⟩ := toDigits_eq_cons n
    exact ⟨c, more, Nat.toList_repr.trans hcons, .inl hc⟩
  | negSucc n => exact ⟨'-', _, toString_negSucc n, .inr rfl⟩

theorem ne_of_isDigit {c d : Char} (hc : c.isDigit) (hd : d.isDigit = false) : c ≠ d := by
  rintro rfl
  rw [hc] at hd
  cases hd

theorem find?_literals {c : Char} (hc : c.isDigit) (rest : List Char) :
    literals.find? (fun literal ↦ literal.1.isPrefixOf (c :: rest)) = none ∧
      literals.find? (fun literal ↦ literal.1.isPrefixOf ('-' :: c :: rest)) = none := by
  have hn := (ne_of_isDigit hc (d := 'n') rfl).symm
  have ht := (ne_of_isDigit hc (d := 't') rfl).symm
  have hf := (ne_of_isDigit hc (d := 'f') rfl).symm
  have hN := (ne_of_isDigit hc (d := 'N') rfl).symm
  have hI := (ne_of_isDigit hc (d := 'I') rfl).symm
  have hminus := (ne_of_isDigit hc (d := '-') rfl).symm
  constructor <;> simp [literals, List.isPrefixOf, hn, ht, hf, hN, hI, hminus]

theorem value_toDigits {n : Nat} (hn : n < 10 ^ integerDigitLimit) (negative : Bool) :
    (Numeral.mk negative (Nat.toDigits 10 n) [] none).value =
      .ok (.integer (if negative then -(n : Int) else n)) := by
  have hlength : ¬ integerDigitLimit < (Nat.toDigits 10 n).length :=
    Nat.not_lt.mpr (Text.length_toDigits_le_digitLimit_iff.mpr hn)
  rw [Numeral.value, if_pos ⟨rfl, rfl⟩, if_neg hlength]
  simp only [digitsValue_toDigits]

section numeral

variable {rest : List Char} (hrest : rest.head?.any continuesNumber = false)
include hrest

theorem takeWhile_toDigits (n : Nat) :
    (Nat.toDigits 10 n ++ rest).takeWhile Char.isDigit = Nat.toDigits 10 n ∧
    (Nat.toDigits 10 n ++ rest).dropWhile Char.isDigit = rest := by
  have hdigits : ∀ c ∈ Nat.toDigits 10 n, c.isDigit := fun c hc ↦ isDigit_of_mem_toDigits hc
  have hstop : rest.takeWhile Char.isDigit = [] ∧ rest.dropWhile Char.isDigit = rest := by
    cases rest with
    | nil => exact ⟨rfl, rfl⟩
    | cons c rest =>
      have hc : c.isDigit = false := by
        simp only [List.head?_cons, Option.any_some, continuesNumber, Bool.or_eq_false_iff] at hrest
        exact hrest.1.1.1
      simp [hc]
  rw [List.takeWhile_append_of_pos hdigits, List.dropWhile_append_of_pos hdigits, hstop.1, hstop.2,
    List.append_nil]
  exact ⟨rfl, rfl⟩

theorem readNumeral?_toDigits (n : Nat) :
    readNumeral? (Nat.toDigits 10 n ++ rest) = some (⟨false, Nat.toDigits 10 n, [], none⟩, rest) ∧
      readNumeral? ('-' :: (Nat.toDigits 10 n ++ rest)) =
        some (⟨true, Nat.toDigits 10 n, [], none⟩, rest) := by
  obtain ⟨htake, hdrop⟩ := takeWhile_toDigits hrest n
  obtain ⟨c, more, hcons, hc⟩ := toDigits_eq_cons n
  have hsign : c ≠ '-' := by
    rintro rfl
    cases hc
  by_cases hzero : n = 0
  · subst hzero
    simp [readNumeral?, readFraction_stop hrest, readExponent_stop hrest]
  · have hhead : c ≠ '0' := by
      have hne := head_toDigits_ne_zero hzero
      rw [hcons, List.head?_cons, ne_eq, Option.some.injEq] at hne
      exact hne
    rw [hcons, List.cons_append] at htake hdrop ⊢
    simp [readNumeral?, hsign, hhead, htake, hdrop, readFraction_stop hrest,
      readExponent_stop hrest]

theorem readScalar_integer {n : Int} (hn : n.natAbs < 10 ^ integerDigitLimit) :
    readScalar ((toString n).toList ++ rest) = .ok (.integer n, rest) := by
  cases n with
  | ofNat n =>
    have htext : (toString (Int.ofNat n)).toList = Nat.toDigits 10 n := Nat.toList_repr
    obtain ⟨c, more, hcons, hc⟩ := toDigits_eq_cons n
    have hliteral := (find?_literals hc (more ++ rest)).1
    rw [← List.cons_append, ← hcons] at hliteral
    rw [htext, readScalar, hliteral]
    have hvalue := value_toDigits (n := n) hn false
    simp only [(readNumeral?_toDigits hrest n).1, hvalue]
    rfl
  | negSucc n =>
    obtain ⟨c, more, hcons, hc⟩ := toDigits_eq_cons (n + 1)
    have hliteral := (find?_literals hc (more ++ rest)).2
    rw [← List.cons_append, ← hcons] at hliteral
    rw [toString_negSucc, List.cons_append, readScalar, hliteral]
    have hvalue := value_toDigits (n := n + 1) hn true
    simp only [(readNumeral?_toDigits hrest (n + 1)).2, hvalue]
    rfl

end numeral

end ScriptSpans.Json
