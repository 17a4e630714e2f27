import ScriptSpans.Classification
import ScriptSpans.Proofs.Line.Surroundings

namespace ScriptSpans.Raw

open Lexicon Markup Region

theorem isGuard_of_markup {c : Char} (h : isMarkup c) : isGuard c = false := by
  rcases markup_cases h with rfl | rfl | rfl <;> rfl

theorem lengthsBefore_escapeList (whole : Nat) (text : List Char) :
    Rule.lengthsBefore whole (escapeList text) = Rule.lengthsBefore whole text := by
  by_cases hpoint : text.head? = some '.'
  · obtain ⟨rest, rfl⟩ := List.head?_eq_some_iff.mp hpoint
    have hdigit : ∀ c, isMarkup c → c.isDigit = false := by
      intro c hc
      rcases markup_cases hc with rfl | rfl | rfl <;> rfl
    rw [escapeList_cons_of_not_markup rfl, Rule.lengthsBefore, Rule.lengthsBefore,
      takeWhile_escapeList hdigit]
  · have hpoint' : (escapeList text).head? ≠ some '.' := by
      rwa [ne_eq, head?_escapeList_eq_some rfl]
    rw [lengthsBefore_of_ne hpoint, lengthsBefore_of_ne hpoint']

theorem isDigitOrBreak_of_markup {c : Char} (h : isMarkup c) : isDigitOrBreak c = false := by
  rcases markup_cases h with rfl | rfl | rfl <;> rfl

theorem numberLengths_escapeList (text : List Char) :
    Rule.numberLengths (escapeList text) = Rule.numberLengths text := by
  simp only [Rule.numberLengths, drop_length_takeWhile]
  rw [takeWhile_escapeList (fun _ ↦ isDigitOrBreak_of_markup),
    dropWhile_escapeList (fun _ ↦ isDigitOrBreak_of_markup), lengthsBefore_escapeList]

theorem not_markup_of_isDigitOrBreak {c : Char} (h : isDigitOrBreak c) : isMarkup c = false :=
  not_markup_of_isIdentifierChar (isIdentifierChar_of_isDigitOrBreak h)

theorem not_markup_of_mem_numberLengths {text : List Char} {length : Nat}
    (h : length ∈ Rule.numberLengths text) : ∀ c ∈ text.take length, isMarkup c = false := by
  simp only [Rule.numberLengths, drop_length_takeWhile] at h
  have hwhole : ∀ c ∈ text.take (text.takeWhile isDigitOrBreak).length, isMarkup c = false := by
    rw [take_length_takeWhile]
    exact fun c hc ↦ not_markup_of_isDigitOrBreak (List.all_eq_true.mp List.all_takeWhile c hc)
  rcases mem_lengthsBefore h with rfl | ⟨rest, hrest, -, rfl⟩
  · exact hwhole
  · intro c hc
    rw [Nat.add_assoc, List.take_add, drop_length_takeWhile, hrest, Nat.add_comm 1,
      List.take_succ_cons, List.mem_append] at hc
    rcases hc with hc | hc
    · exact hwhole c hc
    · rcases List.mem_cons.mp hc with rfl | hc
      · rfl
      · rw [take_length_takeWhile] at hc
        have hdigit := List.all_eq_true.mp List.all_takeWhile c hc
        exact not_markup_of_isDigitOrBreak (by simp [isDigitOrBreak, hdigit])

section congr

variable {w v : Word} (hchars : v.chars = w.chars)
include hchars

theorem numberLength?_congr (hprevious : v.previous.any isGuard = w.previous.any isGuard)
    (hlengths : Rule.numberLengths (v.chars ++ v.after) = Rule.numberLengths (w.chars ++ w.after))
    (hguard : ∀ length ∈ Rule.numberLengths (w.chars ++ w.after),
      ((v.chars ++ v.after).drop length).head?.any isGuard =
        ((w.chars ++ w.after).drop length).head?.any isGuard) :
    Rule.numberLength? v = Rule.numberLength? w := by
  have hfirst : v.firstIs Char.isDigit = w.firstIs Char.isDigit := by
    rw [Word.firstIs, Word.firstIs, hchars]
  rw [Rule.numberLength?, Rule.numberLength?, hfirst, hprevious]
  split
  · simp only [hlengths]
    rw [← List.head?_filter, ← List.head?_filter]
    refine congrArg List.head? (List.filter_congr fun length hlength ↦ ?_)
    rw [hguard length hlength]
  · rfl

theorem ofWord_congr (hnumber : Rule.numberLength? v = Rule.numberLength? w)
    (hfollower : ∀ c, c = '(' ∨ c = ':' → (Rule.follower? v = some c ↔ Rule.follower? w = some c))
    (closing : Bool) : ofWord closing v = ofWord closing w := by
  have hfirst : ∀ p, v.firstIs p = w.firstIs p := fun p ↦ by rw [Word.firstIs, Word.firstIs, hchars]
  have hlength : v.length = w.length := by rw [Word.length, Word.length, hchars]
  simp only [ofWord, hchars, hfirst, hlength, hnumber, hfollower '(' (.inl rfl),
    hfollower ':' (.inr rfl)]

end congr

section escapeList

variable {w v : Word} (hself : ∀ c ∈ w.chars, isMarkup c = false) (hchars : v.chars = w.chars)
  (hafter : v.after = escapeList w.after)
    (hprevious : v.previous.any isGuard = w.previous.any isGuard)
include hself hchars hafter hprevious

theorem numberLength?_escapeList : Rule.numberLength? v = Rule.numberLength? w := by
  have htext : v.chars ++ v.after = escapeList (w.chars ++ w.after) := by
    rw [hchars, hafter, escapeList_append, escapeList_eq_self hself]
  refine numberLength?_congr hchars hprevious (by rw [htext, numberLengths_escapeList]) ?_
  intro length hlength
  rw [htext, drop_escapeList (not_markup_of_mem_numberLengths hlength),
    any_head?_escapeList (fun _ ↦ isGuard_of_markup)]

theorem ofWord_escapeList (closing : Bool) : ofWord closing v = ofWord closing w := by
  have hblank : ∀ c, isMarkup c → isInlineBlank c = false := by
    intro c hc
    rcases markup_cases hc with rfl | rfl | rfl <;> rfl
  have hfollower : ∀ c, isMarkup c = false →
      (Rule.follower? v = some c ↔ Rule.follower? w = some c) := by
    intro c hc
    rw [Rule.follower?, Rule.follower?, hafter, dropWhile_escapeList hblank,
      head?_escapeList_eq_some hc]
  refine ofWord_congr hchars (numberLength?_escapeList hself hchars hafter hprevious) ?_ closing
  rintro c (rfl | rfl)
  · exact hfollower '(' rfl
  · exact hfollower ':' rfl

end escapeList

theorem entityLength?_of_ne {c : Char} (h : c ≠ '&') (text : List Char) :
    entityLength? (c :: text) = none := by
  simp [entityLength?, entities, List.isPrefixOf, h.symm]

theorem entityLength?_escapeChar {c : Char} (h : isMarkup c) (text : List Char) :
    entityLength? (escapeChar c ++ text) = some (escapeChar c).length := by
  rcases markup_cases h with rfl | rfl | rfl <;> rfl

theorem any_getLast?_escapeList {p : Char → Bool} (hp : ∀ c, isMarkup c → p c = false)
    (hsemicolon : p ';' = false) (text : List Char) :
    (escapeList text).getLast?.any p = text.getLast?.any p := by
  rcases List.eq_nil_or_concat text with rfl | ⟨init, c, rfl⟩
  · rfl
  · rw [List.concat_eq_append, escapeList_append, List.getLast?_append, List.getLast?_append]
    by_cases hc : isMarkup c
    · have hlast : (escapeList [c]).getLast? = some ';' := by
        rcases markup_cases hc with rfl | rfl | rfl <;> rfl
      simp [hlast, hsemicolon, hp c hc]
    · rw [escapeList_eq_self (by simpa using hc)]
      rfl

section scan

variable (isOwned : Nat → Bool) (position : Nat) (previous : Option Char)

theorem scan_skip (skip : Nat) (text : List Char) :
    Word.scan isOwned position previous skip text =
      Word.scan isOwned (position + skip) ((text.take skip).getLast?.or previous) 0
        (text.drop skip) := by
  induction text generalizing position previous skip with
  | nil => cases skip <;> simp [Word.scan]
  | cons c rest ih =>
    cases skip with
    | zero => rfl
    | succ skip =>
      rw [Word.scan, ih, List.drop_succ_cons, List.take_succ_cons, List.getLast?_cons,
        Nat.add_assoc, Nat.add_comm 1]
      cases (rest.take skip).getLast? <;> rfl

variable {isOwned position}

theorem scan_owned {block : List Char}
    (h : ∀ q, position ≤ q → q < position + block.length → isOwned q) (text : List Char) :
    Word.scan isOwned position previous 0 (block ++ text) =
      Word.scan isOwned (position + block.length) (block.getLast?.or previous) 0 text := by
  induction block generalizing position previous with
  | nil => rfl
  | cons x block ih =>
    simp only [List.length_cons] at h
    have hfirst := h position (Nat.le_refl _) (by omega)
    rw [List.cons_append, Word.scan, if_pos hfirst, ih _ (fun q hq hlt ↦ h q (by omega) (by omega)),
      List.getLast?_cons, List.length_cons, Nat.add_assoc, Nat.add_comm 1]
    cases block.getLast? <;> rfl

variable (hfree : isOwned position = false)
include hfree

theorem scan_markup {c : Char} (hc : isMarkup c) (text : List Char) :
    Word.scan isOwned position previous 0 (escapeChar c ++ text) =
      Word.scan isOwned (position + (escapeChar c).length) (some ';') 0 text := by
  have hlength := entityLength?_escapeChar hc text
  rcases markup_cases hc with rfl | rfl | rfl <;>
  · rw [escapeChar_eq] at hlength ⊢
    simp only [reduceIte, Char.reduceEq, List.cons_append] at hlength ⊢
    rw [Word.scan, hfree, hlength]
    exact scan_skip _ _ _ _ _

theorem scan_other {c : Char} (hamp : c ≠ '&') (hc : isIdentifierChar c = false)
    (text : List Char) :
    Word.scan isOwned position previous 0 (c :: text) =
      Word.scan isOwned (position + 1) (some c) 0 text := by
  rw [Word.scan, hfree, entityLength?_of_ne hamp, hc]
  rfl

theorem scan_word {chars : List Char} (hchars : chars ≠ [])
    (hidentifier : ∀ c ∈ chars, isIdentifierChar c) {after : List Char}
    (hstop : after.head?.any isIdentifierChar = false) :
    Word.scan isOwned position previous 0 (chars ++ after) =
      ⟨position, previous, chars, after⟩ ::
        Word.scan isOwned (position + chars.length) chars.getLast? 0 after := by
  obtain ⟨c, more, rfl⟩ := List.exists_cons_of_ne_nil hchars
  obtain ⟨hc, hmore⟩ := List.forall_mem_cons.mp hidentifier
  have hamp : c ≠ '&' := by rintro rfl; exact absurd hc (by decide)
  have htake : (more ++ after).takeWhile isIdentifierChar = more := by
    rw [List.takeWhile_append_of_pos hmore, takeWhile_eq_nil_of_head? hstop, List.append_nil]
  have hdrop : (more ++ after).dropWhile isIdentifierChar = after := by
    rw [List.dropWhile_append_of_pos hmore, dropWhile_eq_self_of_head? hstop]
  rw [List.cons_append, Word.scan, hfree, entityLength?_of_ne hamp, hc]
  simp only [Bool.false_eq_true, reduceIte, htake, hdrop]
  rw [scan_skip, List.take_left, List.drop_left, List.getLast?_cons, List.length_cons,
    Nat.add_assoc, Nat.add_comm 1]
  cases more.getLast? <;> rfl

end scan

theorem scan_fraction {isOwned : Nat → Bool} {position : Nat} (previous : Option Char)
    {chars digits : List Char} (hchars : chars ≠ []) (hdigits : digits ≠ [])
    (hidentifier : ∀ c ∈ chars, isIdentifierChar c) (hdecimal : ∀ d ∈ digits, isIdentifierChar d)
    {after : List Char} (hstop : after.head?.any isIdentifierChar = false)
    (hfree : ∀ q, position ≤ q → q < position + (chars.length + 1 + digits.length) →
      isOwned q = false) :
    Word.scan isOwned position previous 0 (chars ++ '.' :: (digits ++ after)) =
      ⟨position, previous, chars, '.' :: (digits ++ after)⟩ ::
        ⟨position + chars.length + 1, some '.', digits, after⟩ ::
          Word.scan isOwned (position + (chars.length + 1 + digits.length))
            digits.getLast? 0 after := by
  have hpos := List.length_pos_iff.mpr hdigits
  rw [scan_word previous (hfree _ (Nat.le_refl _) (by omega)) hchars hidentifier rfl,
    scan_other _ (hfree _ (by omega) (by omega)) (by decide) rfl,
    scan_word _ (hfree _ (by omega) (by omega)) hdigits hdecimal hstop, Nat.add_assoc,
    Nat.add_assoc, Nat.add_assoc]

end ScriptSpans.Raw
