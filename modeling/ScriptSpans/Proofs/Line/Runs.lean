import ScriptSpans.Proofs.Line.Opaque
import Mathlib.Data.Nat.Basic
import Mathlib.Order.Basic

namespace ScriptSpans

open Lexicon Region

namespace Place

theorem after_templateLength {text : List Char} (h : templateLength text < text.length) :
    ∃ inner c, text.take (templateLength text) = inner ++ [c] ∧ isDelimiter c ∧
      ∀ more, after template (inner ++ c :: more) = after code more := by
  induction text with
  | nil => exact absurd h (Nat.lt_irrefl 0)
  | cons c rest ih =>
    by_cases hc : isBacktick c
    · refine ⟨[], c, ?_, by simp [isDelimiter, hc], ?_⟩
      · rw [templateLength, if_pos hc]
        rfl
      · intro more
        rw [List.nil_append, after, if_pos hc]
    · rw [templateLength, if_neg hc] at h ⊢
      obtain ⟨inner, d, htake, hd, hafter⟩ := ih (Nat.lt_of_succ_lt_succ h)
      refine ⟨c :: inner, d, by rw [List.take_succ_cons, htake, List.cons_append], hd, ?_⟩
      intro more
      rw [List.cons_append, after, if_neg hc]
      exact hafter more

theorem after_quotedLength {quote : Char} (hquote : isQuote quote) {text : List Char}
    (h : quotedLength quote text < text.length) :
    ∃ inner c, text.take (quotedLength quote text) = inner ++ [c] ∧ isDelimiter c ∧
      ∀ more, after (string quote) (inner ++ c :: more) = after code more := by
  fun_induction quotedLength quote text with
  | case1 => exact absurd h (Nat.lt_irrefl 0)
  | case2 => exact absurd h (Nat.lt_irrefl 1)
  | case3 c hc next rest ih =>
    obtain ⟨inner, d, htake, hd, hafter⟩ := ih (by simpa using h)
    refine ⟨c :: next :: inner, d, by simp [htake], hd, ?_⟩
    intro more
    rw [List.cons_append, List.cons_append, after, if_pos hc, after]
    exact hafter more
  | case4 rest hslash =>
    refine ⟨[], quote, rfl, by simp [isDelimiter, hquote], ?_⟩
    intro more
    rw [List.nil_append, after, if_neg hslash, if_pos rfl]
  | case5 c rest hslash hne ih =>
    obtain ⟨inner, d, htake, hd, hafter⟩ := ih (by simpa using h)
    refine ⟨c :: inner, d, by simp [htake], hd, ?_⟩
    intro more
    rw [List.cons_append, after, if_neg hslash, if_neg hne]
    exact hafter more

theorem after_body {body rest : List Char} {category : Category}
    (h : literal? (body ++ rest) = some (body.length, category)) (hrest : rest ≠ []) :
    (∃ inner c, body = inner ++ [c] ∧ isDelimiter c) ∧
      ∀ more, after code (body ++ more) = after code more := by
  obtain ⟨c, body, rfl⟩ := List.exists_cons_of_ne_nil (List.length_pos_iff.mp (literal?_length h).1)
  have hpos := List.length_pos_iff.mpr hrest
  have hshort : body.length < (body ++ rest).length := by
    rw [List.length_append]
    omega
  rw [List.cons_append, literal?] at h
  by_cases hbacktick : isBacktick c
  · rw [if_pos hbacktick] at h
    have hlength : templateLength (body ++ rest) = body.length := by
      simpa using (Prod.mk.inj (Option.some.inj h)).1
    obtain ⟨inner, d, htake, hd, hafter⟩ := after_templateLength (hlength.trans_lt hshort)
    rw [hlength, List.take_left] at htake
    refine ⟨⟨c :: inner, d, by rw [htake, List.cons_append], hd⟩, ?_⟩
    intro more
    rw [List.cons_append, after, if_pos hbacktick, htake, List.append_assoc]
    exact hafter more
  · rw [if_neg hbacktick] at h
    by_cases hquote : isQuote c
    · rw [if_pos hquote] at h
      have hlength : quotedLength c (body ++ rest) = body.length := by
        simpa using (Prod.mk.inj (Option.some.inj h)).1
      obtain ⟨inner, d, htake, hd, hafter⟩ := after_quotedLength hquote (hlength.trans_lt hshort)
      rw [hlength, List.take_left] at htake
      refine ⟨⟨c :: inner, d, by rw [htake, List.cons_append], hd⟩, ?_⟩
      intro more
      rw [List.cons_append, after, if_neg hbacktick, if_pos hquote, htake, List.append_assoc]
      exact hafter more
    · rw [if_neg hquote] at h
      cases h

theorem length_le_of_literal? {before more : List Char} (hcode : after code before = code)
    (hbefore : before ≠ []) {length : Nat} {category : Category}
    (h : literal? (before ++ more) = some (length, category)) :
    length ≤ before.length := by
  obtain ⟨c, before, rfl⟩ := List.exists_cons_of_ne_nil hbefore
  cases hliteral : literal? (c :: before) with
  | none =>
    rw [List.cons_append, Raw.literal?_cons_eq_none hliteral] at h
    cases h
  | some head =>
    obtain ⟨short, other⟩ := head
    have hmore := (after_literal hcode hliteral).2 more
    obtain ⟨rfl, rfl⟩ := Prod.mk.inj (Option.some.inj (hmore.symm.trans h))
    exact (literal?_length hliteral).2

end Place

namespace Raw

/-- A longest run of identifier characters that lies in code. -/
structure Run (text before chars after : List Char) : Prop where
  joined : text = before ++ (chars ++ after)
  code : Place.code.after before = .code
  nonempty : chars ≠ []
  identifier : ∀ c ∈ chars, isIdentifierChar c
  left : before.getLast?.any isIdentifierChar = false
  right : after.head?.any isIdentifierChar = false

/-- What a run is that does not begin with a digit, given the text after it. -/
def categoryOf (chars after : List Char) : Category :=
  if isKeyword chars then .keyword
  else if chars.head?.any Char.isUpper then if closes after then .plain else .typeName
  else if chars.head?.any startsName then
    if (after.dropWhile isInlineBlank).head? = some '(' then .functionCall
    else if (after.dropWhile isInlineBlank).head? = some ':' then .propertyKey
    else .plain
  else .plain

theorem ofWord_of_not_isDigit {w : Word} (h : w.firstIs Char.isDigit = false) :
    ofWord (closes w.after) w = (w.length, categoryOf w.chars w.after) := by
  have hfirst : ∀ p, w.chars.head?.any p = w.firstIs p := fun _ ↦ rfl
  have hfollower : (w.after.dropWhile isInlineBlank).head? = Rule.follower? w := rfl
  rw [categoryOf, hfirst, hfirst, hfollower, ofWord, h]
  cases isKeyword w.chars <;> cases w.firstIs Char.isUpper <;> cases w.firstIs startsName <;> rfl

theorem ofWord_of_isDigit {w : Word} (h : w.firstIs Char.isDigit) (closing : Bool) :
    (ofWord closing w).2 = .number ∨ (ofWord closing w).2 = .plain := by
  cases kind w with
  | decimal keyword _ upper =>
    rw [ofWord, if_neg (by simp [keyword]), if_neg (by simp [upper]), if_pos h]
    cases Rule.numberLength? w with
    | none => exact .inr rfl
    | some length => exact .inl rfl
  | reserved _ _ _ digit | name _ _ _ digit | capital _ _ _ digit | other _ _ _ digit =>
    exact absurd h (by simp [digit])

theorem categoryOf_ne_number (chars after : List Char) : categoryOf chars after ≠ .number := by
  rw [categoryOf]
  split_ifs <;> simp

theorem not_commentMark_of_code {before : List Char}
    (hcode : Place.code.after before = .code) {c : Char} (hc : isIdentifierChar c)
    (rest : List Char) : ¬ commentMark <+: before ++ c :: rest := by
  have hslash : c ≠ '/' := by
    rintro rfl
    cases hc
  intro hmark
  match before with
  | [] => exact hslash (commentMark_cons.mp hmark).1
  | [d] => exact hslash (Option.some.inj (commentMark_cons.mp hmark).2)
  | d :: e :: before =>
    obtain ⟨rfl, hhead⟩ := commentMark_cons.mp hmark
    obtain rfl : e = '/' := Option.some.inj hhead
    cases hcode

theorem eq_nil_of_word {w : Word} (maximal : w.Maximal) {previous : Option Char}
    {before rest : List Char} (hjoined : w.chars ++ w.after = before ++ rest)
    (hle : before.length ≤ w.chars.length)
    (hlast : (before.getLast?.or previous).any isIdentifierChar = false) : before = [] := by
  have hwithin : before <+: w.chars :=
    List.prefix_of_prefix_length_le ⟨_, hjoined.symm⟩ (List.prefix_append _ _) hle
  cases hbefore : before.getLast? with
  | none => exact List.getLast?_eq_none_iff.mp hbefore
  | some c =>
    have hc := maximal.identifier c (hwithin.subset (List.mem_of_getLast? hbefore))
    rw [hbefore, Option.some_or, Option.any_some, hc] at hlast
    cases hlast

namespace Run

variable {text before chars after : List Char} (h : Run text before chars after)
include h

theorem exists_cons : ∃ c rest, chars = c :: rest ∧ isIdentifierChar c := by
  obtain ⟨c, rest, rfl⟩ := List.exists_cons_of_ne_nil h.nonempty
  exact ⟨c, rest, rfl, h.identifier c List.mem_cons_self⟩

theorem after_take {start : Nat} (hstart : before.length = start) :
    Place.code.after (text.take start) = .code := by
  rw [h.joined, ← hstart, List.take_left, h.code]

theorem eq_word {w : Word} (maximal : w.Maximal) (htext : text = w.chars ++ w.after)
    (hle : before.length ≤ w.chars.length) : before = [] ∧ w.chars = chars ∧ w.after = after := by
  have hjoined := h.joined
  rw [htext] at hjoined
  have hbefore : before = [] := by
    refine eq_nil_of_word maximal hjoined hle
      (?_ : (before.getLast?.or none).any isIdentifierChar = false)
    rw [Option.or_none, h.left]
  rw [hbefore, List.nil_append] at hjoined
  have hword : (w.chars ++ w.after).takeWhile isIdentifierChar = w.chars := by
    rw [List.takeWhile_append_of_pos maximal.identifier, takeWhile_eq_nil_of_head? maximal.stop,
      List.append_nil]
  have hrun : (chars ++ after).takeWhile isIdentifierChar = chars := by
    rw [List.takeWhile_append_of_pos h.identifier, takeWhile_eq_nil_of_head? h.right,
      List.append_nil]
  have hchars : w.chars = chars := by rw [← hword, hjoined, hrun]
  exact ⟨hbefore, hchars, List.append_cancel_left (hchars ▸ hjoined)⟩

theorem isDigit_of_fraction {w : Word} {digits rest : List Char}
    (htext : text = w.chars ++ '.' :: (digits ++ rest)) (decimal : ∀ d ∈ digits, d.isDigit)
    (hlt : w.chars.length < before.length)
    (hinside : before.length < w.chars.length + 1 + digits.length) :
    chars.head?.any Char.isDigit := by
  obtain ⟨c, more, rfl, -⟩ := h.exists_cons
  have hjoined := h.joined
  rw [htext] at hjoined
  obtain ⟨seen, rfl⟩ : w.chars <+: before :=
    List.prefix_of_prefix_length_le ⟨_, hjoined⟩ (List.prefix_append _ _) (Nat.le_of_lt hlt)
  rw [List.append_assoc] at hjoined
  have hpoint := List.append_cancel_left hjoined
  rw [List.length_append] at hlt hinside
  cases seen with
  | nil => exact absurd hlt (Nat.lt_irrefl _)
  | cons d seen =>
    have hrest : digits ++ rest = (seen ++ [c]) ++ (more ++ after) := by
      simpa using (List.cons.inj hpoint).2
    have hwithin : seen ++ [c] <+: digits := by
      apply List.prefix_of_prefix_length_le ⟨_, hrest.symm⟩ (List.prefix_append _ _)
      rw [List.length_cons] at hinside
      rw [List.length_append, List.length_singleton]
      omega
    exact decimal c (hwithin.subset (by simp))

theorem literal?_of_before_eq_nil (hbefore : before = []) : literal? text = none := by
  obtain ⟨c, rest, rfl, hc⟩ := h.exists_cons
  rw [h.joined, hbefore]
  exact literal?_of_not_mayOpen (not_mayOpen_of_isIdentifierChar hc) _

theorem not_commentMark : ¬ commentMark <+: text := by
  obtain ⟨c, rest, rfl, hc⟩ := h.exists_cons
  rw [h.joined]
  exact not_commentMark_of_code h.code hc _

theorem drop {body rest seen : List Char} (hbefore : before = body ++ seen)
    (hrest : text = body ++ rest) (hcode : Place.code.after seen = .code) :
    Run rest seen chars after where
  joined := by
    have hjoined := h.joined
    rw [hrest, hbefore, List.append_assoc] at hjoined
    exact List.append_cancel_left hjoined
  code := hcode
  nonempty := h.nonempty
  identifier := h.identifier
  left := by
    have hleft := h.left
    rw [hbefore, List.getLast?_append] at hleft
    cases hlast : seen.getLast? with
    | none => rfl
    | some c => rwa [hlast, Option.some_or] at hleft
  right := h.right

end Run

namespace Cuts

variable {previous : Option Char} {text before chars after : List Char} {piece : Piece}
  {earlier later pieces : List Piece}

theorem text_ne_nil (h : Cuts previous text pieces) (hpieces : pieces ≠ []) : text ≠ [] := by
  obtain ⟨piece, later, rfl⟩ := List.exists_cons_of_ne_nil hpieces
  have hpiece := h.chars_ne_nil piece List.mem_cons_self
  rw [← h.flatMap_chars, List.flatMap_cons]
  exact List.append_ne_nil_of_left_ne_nil hpiece _

theorem tail (h : Cuts previous text (piece :: later)) (hlater : later ≠ []) :
    ∃ rest, text = piece.chars ++ rest ∧ Cuts piece.chars.getLast? rest later ∧
      (piece.chars.getLast?.any isIdentifierChar = false ∨
        rest.head?.any isIdentifierChar = false) ∧
      ∀ seen, seen <+: rest → Place.code.after (piece.chars ++ seen) = Place.code.after seen := by
  cases h with
  | @literal _ body rest category _ opens tail =>
    -- it is closed, for there is text behind it
    obtain ⟨⟨inner, c, hbody, hc⟩, hafter⟩ := Place.after_body opens (tail.text_ne_nil hlater)
    refine ⟨rest, rfl, tail, .inl ?_, fun seen _ ↦ hafter seen⟩
    dsimp only
    rw [hbody, List.getLast?_concat, Option.any_some]
    exact not_isIdentifierChar_of_mayOpen (by simp [mayOpen, hc])
  | comment => exact absurd rfl hlater
  | @word w category _ maximal _ tail =>
    exact ⟨w.after, rfl, tail, .inr maximal.stop,
      fun seen _ ↦ Place.after_calm (not_mayOpen_word maximal) seen⟩
  | @fraction w digits rest _ maximal _ nonempty decimal unguarded _ tail =>
    have hlast := getLast?_fraction w.chars nonempty
    refine ⟨rest, by simp, hlast ▸ tail, .inr (any_isIdentifierChar_of_isGuard unguarded), ?_⟩
    exact fun seen _ ↦ Place.after_calm (not_mayOpen_fraction maximal decimal) seen
  | @other _ c rest _ closed mark apart tail =>
    refine ⟨rest, rfl, tail, .inl apart, ?_⟩
    intro seen hseen
    obtain ⟨more, rfl⟩ := hseen
    obtain ⟨hbacktick, hquote⟩ := not_literal_cons closed
    -- a lone slash is code, and what was seen of the rest does not make it two
    have hmark : ¬ (c = '/' ∧ seen.head? = some '/') := by
      intro hslashes
      apply mark
      rw [commentMark_cons, List.head?_append, hslashes.2]
      exact ⟨hslashes.1, rfl⟩
    rw [List.singleton_append, Place.after, hbacktick, hquote, if_neg hmark]
    rfl

theorem resume (h : Cuts previous text (earlier ++ later)) (hlater : later ≠ []) :
    ∃ rest last, text = earlier.flatMap Piece.chars ++ rest ∧ Cuts last rest later ∧
      ((earlier.flatMap Piece.chars).getLast?.any isIdentifierChar = false ∨
        rest.head?.any isIdentifierChar = false) ∧
      Place.code.after (earlier.flatMap Piece.chars) = .code := by
  induction earlier generalizing previous text with
  | nil => exact ⟨text, previous, rfl, h, .inl rfl, rfl⟩
  | cons piece earlier ih =>
    obtain ⟨rest, rfl, htail, hend, hplace⟩ := h.tail (List.append_ne_nil_of_right_ne_nil _ hlater)
    obtain ⟨left, last, rfl, hcuts, hends, hcode⟩ := ih htail
    refine ⟨left, last, by rw [List.flatMap_cons, List.append_assoc], hcuts, ?_, ?_⟩
    · rw [List.flatMap_cons, List.getLast?_append]
      cases hlast : (earlier.flatMap Piece.chars).getLast? with
      | some c => rwa [hlast] at hends
      | none =>
        rw [List.getLast?_eq_none_iff] at hlast
        rwa [hlast] at hend
    · rw [List.flatMap_cons, hplace _ (List.prefix_append _ left), hcode]

/-- A word of the rules is a run, unless it is a number. -/
theorem run_of_append (h : Cuts previous text (earlier ++ piece :: later))
    (hregion : piece.category.isRegion = false) (hnumber : piece.category ≠ .number)
    (hplain : piece.category ≠ .plain) :
    ∃ after, Run text (earlier.flatMap Piece.chars) piece.chars after ∧
      piece.category = categoryOf piece.chars after := by
  obtain ⟨rest, last, htext, hcuts, hends, hcode⟩ := h.resume (List.cons_ne_nil _ _)
  cases hcuts with
  | literal opens =>
    have hliteral := region_of_literal (literal?_isLiteral opens)
    rw [hregion] at hliteral
    cases hliteral
  | comment => cases hregion
  | @word w category _ maximal head =>
    have hdigit : w.firstIs Char.isDigit = false := by
      rw [Bool.eq_false_iff]
      intro hdigit
      have hcategory := ofWord_of_isDigit hdigit (closes w.after)
      rw [head] at hcategory
      exact hcategory.elim hnumber hplain
    rw [ofWord_of_not_isDigit hdigit] at head
    refine ⟨w.after, ⟨htext, hcode, maximal.nonempty, maximal.identifier, ?_, maximal.stop⟩,
      (Prod.mk.inj head).2.symm⟩
    obtain ⟨c, chars, hchars⟩ := List.exists_cons_of_ne_nil maximal.nonempty
    have hfirst : (w.chars ++ w.after).head?.any isIdentifierChar := by
      rw [hchars]
      exact maximal.identifier c (by simp [hchars])
    rw [hfirst] at hends
    exact hends.resolve_right (by simp)
  | fraction => exact absurd rfl hnumber
  | other => exact absurd rfl hplain

/-- A run that begins within a piece is the piece. -/
theorem head_of_run (h : Cuts previous text (piece :: later)) (hrun : Run text before chars after)
    (hdigit : chars.head?.any Char.isDigit = false) (hinside : before.length < piece.chars.length) :
    before = [] ∧ piece = ⟨categoryOf chars after, chars⟩ := by
  have hjoined := hrun.joined
  cases h with
  | literal opens =>
    by_cases hbefore : before = []
    · rw [hrun.literal?_of_before_eq_nil hbefore] at opens
      cases opens
    · -- the literal would still be open where the run begins
      rw [hjoined] at opens
      have hle := Place.length_le_of_literal? hrun.code hbefore opens
      exact absurd hinside (Nat.not_lt.mpr hle)
  | comment _ mark => exact absurd mark hrun.not_commentMark
  | @word w category _ maximal head =>
    obtain ⟨hbefore, rfl, rfl⟩ := hrun.eq_word maximal rfl (Nat.le_of_lt hinside)
    rw [ofWord_of_not_isDigit hdigit] at head
    exact ⟨hbefore, by rw [(Prod.mk.inj head).2]⟩
  | @fraction w digits rest _ maximal point nonempty decimal _ head =>
    have hlength : before.length < w.chars.length + 1 + digits.length := by
      simp only [List.length_append, List.length_cons] at hinside
      omega
    rcases Nat.lt_or_ge w.chars.length before.length with hlt | hle
    · rw [hrun.isDigit_of_fraction rfl decimal hlt hlength] at hdigit
      cases hdigit
    · obtain ⟨-, rfl, rfl⟩ := hrun.eq_word maximal (by rw [point]) hle
      rw [ofWord_of_not_isDigit hdigit] at head
      exact absurd (Prod.mk.inj head).2 (categoryOf_ne_number _ _)
  | @other _ c rest _ _ _ apart =>
    have hbefore : before = [] := List.length_eq_zero_iff.mp (Nat.lt_one_iff.mp hinside)
    obtain ⟨x, chars, rfl, hx⟩ := hrun.exists_cons
    rw [hbefore] at hjoined
    rw [(List.cons.inj hjoined).1, hx] at apart
    cases apart

/-- A run of code that does not begin with a digit comes off as a piece. -/
theorem exists_of_run (h : Cuts previous text pieces) (hrun : Run text before chars after)
    (hdigit : chars.head?.any Char.isDigit = false) :
    ∃ earlier later, pieces = earlier ++ ⟨categoryOf chars after, chars⟩ :: later ∧
      earlier.flatMap Piece.chars = before := by
  induction pieces generalizing previous text before with
  | nil =>
    have hnil := h.flatMap_chars
    rw [hrun.joined] at hnil
    exact absurd hnil.symm (by simp [hrun.nonempty])
  | cons piece later ih =>
    by_cases hinside : before.length < piece.chars.length
    · obtain ⟨rfl, rfl⟩ := h.head_of_run hrun hdigit hinside
      exact ⟨[], later, rfl, rfl⟩
    · have hchars := h.flatMap_chars
      have hjoined := hrun.joined
      rw [List.flatMap_cons, hjoined] at hchars
      obtain ⟨seen, rfl⟩ : piece.chars <+: before :=
        List.prefix_of_prefix_length_le ⟨_, hchars⟩ (List.prefix_append _ _) (Nat.not_lt.mp hinside)
      have hlater : later ≠ [] := by
        rintro rfl
        rw [List.flatMap_nil, List.append_nil] at hchars
        have hlength := congrArg List.length hchars
        have hpos := List.length_pos_iff.mpr hrun.nonempty
        simp only [List.length_append] at hlength
        omega
      obtain ⟨rest, hrest, htail, -, hplace⟩ := h.tail hlater
      have hseen : seen <+: rest := by
        rw [hjoined, List.append_assoc] at hrest
        exact ⟨_, List.append_cancel_left hrest⟩
      have hcode := hrun.code
      rw [hplace seen hseen] at hcode
      obtain ⟨earlier, pieces, hpieces, hbefore⟩ := ih htail (hrun.drop rfl hrest hcode)
      exact ⟨piece :: earlier, pieces, by rw [hpieces, List.cons_append],
        by rw [List.flatMap_cons, hbefore]⟩

end Cuts

end Raw

end ScriptSpans
