import ScriptSpans.Json.Reader
import Mathlib.Data.List.TakeWhile

namespace ScriptSpans.Json

def HasDigits (count : Nat) (text : List Char) : Prop :=
  ∃ digits : List Char, digits <:+: text ∧ digits.length = count ∧ ∀ c ∈ digits, c.isDigit

/-- What is left is an end of the text, and an integer that stopped the reading stands in it. -/
def Inside {α : Type} (text : List Char) : Reading α → Prop
  | .ok (_, rest) => rest <:+ text
  | .error (.hugeInteger digits) => integerDigitLimit < digits ∧ HasDigits digits text
  | .error (.flaw _ _) => True

variable {α β : Type} {text later : List Char}

theorem HasDigits.mono {count : Nat} (h : HasDigits count later) (hlater : later <:+ text) :
    HasDigits count text := by
  obtain ⟨digits, hdigits, hcount⟩ := h
  exact ⟨digits, hdigits.trans hlater.isInfix, hcount⟩

theorem Inside.mono {reading : Reading α} (h : Inside later reading) (hlater : later <:+ text) :
    Inside text reading := by
  match reading with
  | .ok _ => exact List.IsSuffix.trans h hlater
  | .error (.hugeInteger _) => exact ⟨h.1, h.2.mono hlater⟩
  | .error (.flaw _ _) => trivial

theorem Inside.map {reading : Reading α} (h : Inside text reading) (f : α → β) :
    Inside text (reading.map (fun (a, rest) ↦ (f a, rest))) := by
  match reading with
  | .ok _ => exact h
  | .error (.hugeInteger _) => exact h
  | .error (.flaw _ _) => trivial

theorem Inside.error {stop : Stop} (h : Inside text (.error stop : Reading α)) :
    Inside text (.error stop : Reading β) := by
  cases stop with
  | flaw _ _ => trivial
  | hugeInteger _ => exact h

theorem skipSpace_suffix (text : List Char) : skipSpace text <:+ text := List.dropWhile_suffix _

theorem flaw_of_lowHalf? {stop : Stop} (h : lowHalf? text = .error stop) :
    ∃ cause rest, stop = .flaw cause rest := by
  unfold lowHalf? at h
  split at h
  · split at h <;> cases h
    exact ⟨_, _, rfl⟩
  · cases h

theorem flaw_of_unicodeEscape {stop : Stop} (h : unicodeEscape text = .error stop) :
    ∃ cause rest, stop = .flaw cause rest := by
  unfold unicodeEscape at h
  split at h
  · split at h
    · cases h
      exact ⟨_, _, rfl⟩
    · split_ifs at h
      split at h <;> cases h
      next hlow => exact flaw_of_lowHalf? hlow
  · cases h
    exact ⟨_, _, rfl⟩

theorem flaw_of_readEscape {opening : List Char} {stop : Stop}
    (h : readEscape opening text = .error stop) :
    ∃ cause rest, stop = .flaw cause rest := by
  unfold readEscape at h
  split at h
  · cases h
    exact ⟨_, _, rfl⟩
  · exact flaw_of_unicodeEscape h
  · split at h <;> cases h
    exact ⟨_, _, rfl⟩

theorem inside_readString (opening read : List Char) (skip : Nat) (text : List Char) :
    Inside text (readString opening read skip text) := by
  induction text generalizing read skip with
  | nil =>
    rw [readString]
    trivial
  | cons c rest ih =>
    have hrest := List.suffix_cons c rest
    cases skip with
    | succ skip =>
      rw [readString]
      exact (ih read skip).mono hrest
    | zero =>
      rw [readString]
      split_ifs
      · exact hrest
      · cases hescape : readEscape opening (c :: rest) with
        | error stop =>
          obtain ⟨cause, place, rfl⟩ := flaw_of_readEscape hescape
          trivial
        | ok escape => exact (ih _ _).mono hrest
      · trivial
      · exact (ih _ _).mono hrest

theorem readFraction_suffix (text : List Char) : (readFraction text).2 <:+ text := by
  unfold readFraction
  split
  · split_ifs
    · exact List.suffix_rfl
    · exact (List.dropWhile_suffix _).trans (List.suffix_cons _ _)
  · exact List.suffix_rfl

theorem readSign_suffix (text : List Char) : (readSign text).2 <:+ text := by
  unfold readSign
  split
  · exact List.suffix_cons _ _
  · exact List.suffix_cons _ _
  · exact List.suffix_rfl

theorem readExponent_suffix (text : List Char) : (readExponent text).2 <:+ text := by
  unfold readExponent
  split
  · next c rest =>
    dsimp only
    split_ifs
    · exact ((List.dropWhile_suffix _).trans (readSign_suffix rest)).trans (List.suffix_cons c rest)
    · exact List.suffix_rfl
  · exact List.suffix_rfl

theorem afterWhole_inside {unsigned whole after : List Char} (hunsigned : unsigned <:+ text)
    (happend : whole ++ after = unsigned) (hdigits : ∀ c ∈ whole, c.isDigit) :
    (readExponent (readFraction after).2).2 <:+ text ∧ whole <:+: text ∧
      ∀ c ∈ whole, c.isDigit := by
  have hafter : after <:+ unsigned := ⟨whole, happend⟩
  have hwhole : whole <+: unsigned := ⟨after, happend⟩
  have hrest := (readExponent_suffix _).trans (readFraction_suffix after)
  exact ⟨(hrest.trans hafter).trans hunsigned, hwhole.isInfix.trans hunsigned.isInfix, hdigits⟩

theorem readNumeral?_inside {numeral : Numeral} {rest : List Char}
    (h : readNumeral? text = some (numeral, rest)) :
    rest <:+ text ∧ numeral.whole <:+: text ∧ ∀ c ∈ numeral.whole, c.isDigit := by
  have hzero : ∀ c ∈ ['0'], c.isDigit := List.forall_mem_singleton.mpr rfl
  have hdigits : ∀ unsigned : List Char, ∀ c ∈ unsigned.takeWhile Char.isDigit, c.isDigit :=
    fun unsigned c hc ↦ List.mem_takeWhile_imp hc
  unfold readNumeral? at h
  dsimp only at h
  split_ifs at h
  cases h
  dsimp only
  split
  · next unsigned rest hunsigned =>
    refine afterWhole_inside ?_ (List.singleton_append (x := '0') (l := rest)) hzero
    rw [← hunsigned]
    split
    · exact List.suffix_cons _ _
    · exact List.suffix_rfl
  · refine afterWhole_inside ?_ List.takeWhile_append_dropWhile (hdigits _)
    split
    · exact List.suffix_cons _ _
    · exact List.suffix_rfl

theorem inside_readScalar (text : List Char) : Inside text (readScalar text) := by
  rw [readScalar]
  split
  · exact List.drop_suffix _ _
  · split
    · trivial
    · next numeral rest hnumeral =>
      obtain ⟨hrest, hwhole, hdigits⟩ := readNumeral?_inside hnumeral
      unfold Numeral.value
      dsimp only
      split_ifs with hinteger hlong
      · exact ⟨hlong, numeral.whole, hwhole, rfl, hdigits⟩
      · exact hrest
      · exact hrest
      · exact hrest
      · exact hrest

theorem inside_readValue_succ {fuel : Nat} (hitems : ∀ text, Inside text (readItems fuel text))
    (hmembers : ∀ text, Inside text (readMembers fuel text)) (text : List Char) :
    Inside text (readValue (fuel + 1) text) := by
  unfold readValue
  split
  · next rest => exact ((inside_readString _ _ _ rest).map _).mono (List.suffix_cons _ rest)
  · next rest =>
    have hrest := (skipSpace_suffix rest).trans (List.suffix_cons '[' rest)
    split
    · next after hafter =>
        exact ((List.suffix_cons ']' after).trans (hafter ▸ List.suffix_rfl)).trans hrest
    · exact ((hitems _).map _).mono hrest
  · next rest =>
    have hrest := (skipSpace_suffix rest).trans (List.suffix_cons '\x7b' rest)
    split
    · next after hafter =>
        exact ((List.suffix_cons '\x7d' after).trans (hafter ▸ List.suffix_rfl)).trans hrest
    · exact ((hmembers _).map _).mono hrest
  · exact inside_readScalar text

theorem inside_readItems_succ {fuel : Nat} (hvalue : ∀ text, Inside text (readValue fuel text))
    (hitems : ∀ text, Inside text (readItems fuel text)) (text : List Char) :
    Inside text (readItems (fuel + 1) text) := by
  have hfirst := hvalue text
  unfold readItems
  cases hread : readValue fuel text with
  | error stop =>
    rw [hread] at hfirst
    exact hfirst.error
  | ok read =>
    obtain ⟨item, rest⟩ := read
    rw [hread] at hfirst
    have hrest := (skipSpace_suffix rest).trans hfirst
    dsimp only
    split
    · next after hafter => exact (List.suffix_cons ']' after).trans (hafter ▸ hrest)
    · next after hafter =>
      have hafter := (List.suffix_cons ',' after).trans (hafter ▸ hrest)
      exact ((hitems _).map _).mono ((skipSpace_suffix after).trans hafter)
    · trivial

theorem inside_readMembers_succ {fuel : Nat} (hvalue : ∀ text, Inside text (readValue fuel text))
    (hmembers : ∀ text, Inside text (readMembers fuel text)) (text : List Char) :
    Inside text (readMembers (fuel + 1) text) := by
  unfold readMembers
  split
  · next afterQuote =>
    have hname :=
      (inside_readString ('\x22' :: afterQuote) [] 0 afterQuote).mono
      (List.suffix_cons '\x22' afterQuote)
    split
    · next stop hread =>
      rw [hread] at hname
      exact hname.error
    · next name rest hread =>
      rw [hread] at hname
      have hrest := (skipSpace_suffix rest).trans hname
      split
      · next afterColon hcolon =>
        have hcolon := (List.suffix_cons ':' afterColon).trans (hcolon ▸ hrest)
        have hmember :=
          (hvalue (skipSpace afterColon)).mono ((skipSpace_suffix afterColon).trans hcolon)
        split
        · next stop hread =>
          rw [hread] at hmember
          exact hmember.error
        · next value rest hread =>
          rw [hread] at hmember
          have hrest := (skipSpace_suffix rest).trans hmember
          split
          · next after hafter => exact (List.suffix_cons '\x7d' after).trans (hafter ▸ hrest)
          · next after hafter =>
            have hafter := (List.suffix_cons ',' after).trans (hafter ▸ hrest)
            exact ((hmembers _).map _).mono ((skipSpace_suffix after).trans hafter)
          · trivial
      · trivial
  · trivial

theorem inside_readers (fuel : Nat) : (∀ text, Inside text (readValue fuel text)) ∧
    (∀ text, Inside text (readItems fuel text)) ∧ ∀ text, Inside text (readMembers fuel text) := by
  induction fuel with
  | zero =>
    refine ⟨fun text ↦ ?_, fun text ↦ ?_, fun text ↦ ?_⟩
    · rw [readValue]
      trivial
    · rw [readItems]
      trivial
    · rw [readMembers]
      trivial
  | succ fuel ih =>
    -- With this much fuel every reader calls the others with one less.
    obtain ⟨hvalue, hitems, hmembers⟩ := ih
    exact ⟨inside_readValue_succ hitems hmembers, inside_readItems_succ hvalue hitems,
      inside_readMembers_succ hvalue hmembers⟩

/-- Only digits in a row, more of them than are converted, are an integer that cannot be read. -/
theorem read_hugeInteger {text : String} {count : Nat}
    (h : Value.read text = .error (.hugeInteger count)) :
    integerDigitLimit < count ∧ HasDigits count text.toList := by
  rw [Value.read] at h
  cases hread : readText text.toList with
  | ok value =>
    rw [hread] at h
    cases h
  | error stop =>
    rw [hread] at h
    cases stop with
    | flaw cause rest => cases h
    | hugeInteger digits =>
      cases h
      have hvalue :=
        ((inside_readers (2 * text.toList.length + 1)).1 _).mono (skipSpace_suffix text.toList)
      unfold readText at hread
      split at hread
      · cases hread
      · split at hread
        · next stop hstop =>
          cases hread
          rw [hstop] at hvalue
          exact hvalue
        · split at hread <;> cases hread

end ScriptSpans.Json
