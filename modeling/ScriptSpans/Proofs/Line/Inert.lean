import ScriptSpans.Proofs.Line.Automaton
import Mathlib.Data.List.Forall2
import Mathlib.Data.List.TakeWhile

namespace ScriptSpans

open Lexicon Markup Region

namespace Lexicon

def isInert (c : Char) : Bool :=
  !(isIdentifierChar c || isDelimiter c || isBackslash c || isInlineBlank c ||
    c = '/' || c = '.' || c = '(' || c = ':' || c = '<' || c = '>')

def Blind (p : Char → Bool) : Prop := ∀ c, p c → isInert c = false

theorem blind_isIdentifierChar : Blind isIdentifierChar := fun _ h ↦ by simp [isInert, h]

theorem blind_isDelimiter : Blind isDelimiter := fun _ h ↦ by simp [isInert, h]

theorem blind_isBackslash : Blind isBackslash := fun _ h ↦ by simp [isInert, h]

theorem blind_isInlineBlank : Blind isInlineBlank := fun _ h ↦ by simp [isInert, h]

theorem blind_isBacktick : Blind isBacktick := fun _ h ↦ by simp [isInert, isDelimiter, h]

theorem blind_isQuote : Blind isQuote := fun _ h ↦ by simp [isInert, isDelimiter, h]

theorem blind_isDigitOrBreak : Blind isDigitOrBreak :=
  fun c h ↦ blind_isIdentifierChar c (Raw.isIdentifierChar_of_isDigitOrBreak h)

theorem blind_isDigit : Blind Char.isDigit :=
  fun c h ↦ blind_isDigitOrBreak c (by simp [isDigitOrBreak, h])

theorem blind_isGuard : Blind isGuard := by
  intro c h
  simp only [isGuard, Bool.or_eq_true] at h
  rcases h with h | h
  · exact blind_isIdentifierChar c h
  · exact blind_isDelimiter c h

/-- A character as the rules see it: one inert character stands for all. -/
def blur (c : Char) : Char := if isInert c then ';' else c

theorem blur_of_not_inert {c : Char} (h : isInert c = false) : blur c = c := by
  rw [blur, h]
  rfl

theorem blur_eq_iff {x : Char} (hx : isInert x = false) (c : Char) : blur c = x ↔ c = x := by
  rw [blur]
  split
  · rename_i hc
    have hsemicolon : ';' ≠ x := fun h ↦ absurd hx (h ▸ by decide)
    have hne : c ≠ x := fun h ↦ absurd hc (by simp [h, hx])
    exact iff_of_false hsemicolon hne
  · exact Iff.rfl

section blind

variable {p : Char → Bool} (hp : Blind p)
include hp

theorem Blind.blur (c : Char) : p (blur c) = p c := by
  rw [Lexicon.blur]
  split
  · rename_i hc
    have hnot : ∀ x, isInert x → p x = false := by
      intro x hx
      rw [Bool.eq_false_iff]
      exact fun h ↦ absurd hx (by simp [hp x h])
    rw [hnot c hc, hnot ';' rfl]
  · rfl

theorem Blind.comp_blur : p ∘ Lexicon.blur = p := funext hp.blur

theorem Blind.map_blur {text : List Char} (h : ∀ c ∈ text, p c) : text.map Lexicon.blur = text := by
  have hself : ∀ c ∈ text, Lexicon.blur c = id c := fun c hc ↦ blur_of_not_inert (hp c (h c hc))
  rw [List.map_congr_left hself, List.map_id]

theorem Blind.takeWhile_blur (text : List Char) :
    (text.map Lexicon.blur).takeWhile p = text.takeWhile p := by
  rw [List.takeWhile_map, hp.comp_blur]
  exact hp.map_blur (fun _ ↦ List.mem_takeWhile_imp)

theorem Blind.dropWhile_blur (text : List Char) :
    (text.map Lexicon.blur).dropWhile p = (text.dropWhile p).map Lexicon.blur := by
  rw [List.dropWhile_map, hp.comp_blur]

theorem Blind.any_blur (c : Option Char) : (c.map Lexicon.blur).any p = c.any p := by
  cases c with
  | none => rfl
  | some c => exact hp.blur c

end blind

theorem map_blur_eq_some_iff {x : Char} (hx : isInert x = false) (c : Option Char) :
    c.map blur = some x ↔ c = some x := by
  cases c with
  | none => simp
  | some c => simpa using blur_eq_iff hx c

end Lexicon

namespace Region

theorem templateLength_blur (text : List Char) :
    templateLength (text.map blur) = templateLength text := by
  induction text with
  | nil => rfl
  | cons c rest ih => rw [List.map_cons, templateLength, templateLength, blind_isBacktick.blur, ih]

theorem quotedLength_blur {quote : Char} (hquote : isInert quote = false) (text : List Char) :
    quotedLength quote (text.map blur) = quotedLength quote text := by
  fun_induction quotedLength quote text with
  | case1 => rfl
  | case2 c hc =>
    have hslash : isBackslash (blur c) := by rwa [blind_isBackslash.blur]
    simp [quotedLength, hslash]
  | case3 c hc next rest ih =>
    have hslash : isBackslash (blur c) := by rwa [blind_isBackslash.blur]
    rw [List.map_cons, List.map_cons, quotedLength_backslash hslash, ih]
  | case4 rest hslash =>
    rw [List.map_cons, blur_of_not_inert hquote,
      quotedLength_cons (by simpa using hslash), if_pos rfl]
  | case5 c rest hslash hne ih =>
    have hslash' : isBackslash (blur c) = false := by
      rw [blind_isBackslash.blur]; simpa using hslash
    have hne' : blur c ≠ quote := by rwa [ne_eq, blur_eq_iff hquote]
    rw [List.map_cons, quotedLength_cons hslash', if_neg hne', ih]

theorem literal?_blur (text : List Char) : literal? (text.map blur) = literal? text := by
  cases text with
  | nil => rfl
  | cons c rest =>
    rw [List.map_cons, literal?, literal?, blind_isBacktick.blur, blind_isQuote.blur]
    split
    · rw [templateLength_blur]
    · split
      · rename_i hquote
        have hc := blind_isQuote c hquote
        rw [blur_of_not_inert hc, quotedLength_blur hc]
      · rfl

theorem commentMark_isPrefixOf_blur (text : List Char) :
    commentMark.isPrefixOf (text.map blur) = commentMark.isPrefixOf text := by
  cases text with
  | nil => rfl
  | cons c rest =>
    rw [Bool.eq_iff_iff, List.isPrefixOf_iff_prefix, List.isPrefixOf_iff_prefix, List.map_cons,
      commentMark_cons, commentMark_cons, List.head?_map, blur_eq_iff rfl, map_blur_eq_some_iff rfl]

end Region

namespace Raw

def Piece.blur (piece : Piece) : Piece := ⟨piece.category, piece.chars.map Lexicon.blur⟩

theorem closes_blur (text : List Char) : closes (text.map blur) = closes text := by
  induction text with
  | nil => rfl
  | cons c rest ih =>
    have hmark := commentMark_isPrefixOf_blur (c :: rest)
    rw [List.map_cons] at hmark ⊢
    simp only [closes, hmark, blind_isDelimiter.blur, blur_eq_iff (x := '<') rfl,
      blur_eq_iff (x := '>') rfl, ih]

theorem lengthsBefore_blur (whole : Nat) (text : List Char) :
    Rule.lengthsBefore whole (text.map blur) = Rule.lengthsBefore whole text := by
  by_cases hpoint : text.head? = some '.'
  · obtain ⟨rest, rfl⟩ := List.head?_eq_some_iff.mp hpoint
    have hself : blur '.' = '.' := rfl
    rw [List.map_cons, hself, Rule.lengthsBefore, Rule.lengthsBefore, blind_isDigit.takeWhile_blur]
  · have hpoint' : (text.map blur).head? ≠ some '.' := by
      rwa [ne_eq, List.head?_map, map_blur_eq_some_iff rfl]
    rw [lengthsBefore_of_ne hpoint, lengthsBefore_of_ne hpoint']

theorem numberLengths_blur (text : List Char) :
    Rule.numberLengths (text.map blur) = Rule.numberLengths text := by
  simp only [Rule.numberLengths, drop_length_takeWhile]
  rw [blind_isDigitOrBreak.takeWhile_blur, blind_isDigitOrBreak.dropWhile_blur, lengthsBefore_blur]

theorem ofWord_blur {w v : Word} (hw : w.Maximal) (hchars : v.chars = w.chars)
    (hafter : v.after = w.after.map blur) (hprevious : v.previous = w.previous.map blur)
    (closing : Bool) :
    ofWord closing v = ofWord closing w := by
  have htext : v.chars ++ v.after = (w.chars ++ w.after).map blur := by
    rw [hchars, hafter, List.map_append, blind_isIdentifierChar.map_blur hw.identifier]
  have hguard : v.previous.any isGuard = w.previous.any isGuard := by
    rw [hprevious, blind_isGuard.any_blur]
  refine ofWord_congr hchars (numberLength?_congr hchars hguard ?_ ?_) ?_ closing
  · rw [htext, numberLengths_blur]
  · intro length _
    rw [htext, ← List.map_drop, List.head?_map, blind_isGuard.any_blur]
  · intro c hc
    have hinert : isInert c = false := by rcases hc with rfl | rfl <;> rfl
    rw [Rule.follower?, Rule.follower?, hafter, blind_isInlineBlank.dropWhile_blur, List.head?_map,
      map_blur_eq_some_iff hinert]

theorem headOf_blur (previous : Option Char) (c : Char) (rest : List Char) :
    headOf (previous.map blur) (blur c) (rest.map blur) = headOf previous c rest := by
  have hliteral := literal?_blur (c :: rest)
  have hmark := commentMark_isPrefixOf_blur (c :: rest)
  rw [List.map_cons] at hliteral hmark
  simp only [headOf, hliteral, hmark, List.length_map, blind_isIdentifierChar.blur]
  cases literal? (c :: rest) with
  | some head => rfl
  | none =>
    dsimp only
    split
    · rfl
    · split
      · rename_i hc
        have hafter : (wordAt (previous.map blur) (blur c) (rest.map blur)).after =
            (wordAt previous c rest).after.map blur := blind_isIdentifierChar.dropWhile_blur rest
        have hchars : (wordAt (previous.map blur) (blur c) (rest.map blur)).chars =
            (wordAt previous c rest).chars := by
          simp only [wordAt, blind_isIdentifierChar.takeWhile_blur,
            blur_of_not_inert (blind_isIdentifierChar c hc)]
        rw [hafter, closes_blur]
        exact ofWord_blur (wordAt_maximal previous hc rest) hchars hafter rfl _
      · rfl

theorem cut_blur (previous : Option Char) (text : List Char) :
    cut (previous.map blur) (text.map blur) = (cut previous text).map Piece.blur := by
  fun_induction cut previous text with
  | case1 => rw [List.map_nil, cut, List.map_nil]
  | case2 previous c rest head body ih =>
    have hbody : blur c :: (rest.map blur).take (head.1 - 1) = body.map blur := by
      rw [List.map_cons, List.map_take]
    rw [List.map_cons, cut, headOf_blur, hbody, List.getLast?_map, ← List.map_drop, ih]
    rfl

theorem plainPiece_blur (gap : List Char) :
    plainPiece (gap.map Lexicon.blur) = (plainPiece gap).map Piece.blur := by
  cases gap <;> rfl

theorem joinFrom_blur (gap : List Char) (pieces : List Piece) :
    joinFrom (gap.map Lexicon.blur) (pieces.map Piece.blur) =
      (joinFrom gap pieces).map Piece.blur := by
  induction pieces generalizing gap with
  | nil => exact plainPiece_blur gap
  | cons piece later ih =>
    have hnil := ih []
    have hgap := ih (gap ++ piece.chars)
    rw [List.map_append] at hgap
    rw [List.map_cons, joinFrom, joinFrom]
    change (if piece.category = .plain then
      joinFrom (gap.map Lexicon.blur ++ piece.chars.map Lexicon.blur) _ else _) = _
    split
    · exact hgap
    · rw [plainPiece_blur, List.map_append, List.map_cons]
      exact congrArg (fun rest ↦ (plainPiece gap).map Piece.blur ++ piece.blur :: rest) hnil

theorem piecesOf_blur (config : Config) (raw : List Char) :
    piecesOf config (raw.map Lexicon.blur) = (piecesOf config raw).map Piece.blur := by
  have hcut :
      joinFrom [] (cut none (raw.map Lexicon.blur)) =
      (joinFrom [] (cut none raw)).map Piece.blur := by
    rw [← joinFrom_blur, ← cut_blur]
    rfl
  rw [piecesOf, piecesOf]
  cases config.maxLineLength with
  | none => exact hcut
  | some limit =>
    dsimp only
    rw [List.length_map]
    split
    · exact plainPiece_blur raw
    · exact hcut

end Raw

/-- Lines that differ in inert characters only are classified alike. -/
theorem Line.ofSource_inert (config : Config) {raw other : String} (lineno : Int)
    (h : List.Forall₂ (fun a b ↦ a = b ∨ (isInert a ∧ isInert b)) raw.toList other.toList) :
    List.Forall₂ (fun a b ↦ a.category = b.category ∧
      (unescape a.text).length = (unescape b.text).length)
      (Line.ofSource config raw lineno).value.spans
        (Line.ofSource config other lineno).value.spans := by
  have hblur : raw.toList.map blur = other.toList.map blur := by
    rw [← List.forall₂_eq_eq_eq, List.forall₂_map_left_iff, List.forall₂_map_right_iff]
    refine h.imp (fun a b hab ↦ ?_)
    rcases hab with rfl | ⟨ha, hb⟩
    · rfl
    · rw [blur, blur, if_pos ha, if_pos hb]
  have hpieces : (Raw.piecesOf config raw.toList).map Raw.Piece.blur =
      (Raw.piecesOf config other.toList).map Raw.Piece.blur := by
    rw [← Raw.piecesOf_blur, hblur, Raw.piecesOf_blur]
  rw [← List.forall₂_eq_eq_eq, List.forall₂_map_left_iff, List.forall₂_map_right_iff] at hpieces
  rw [Line.ofSource_value, Line.ofSource_value, List.forall₂_map_left_iff,
    List.forall₂_map_right_iff]
  refine hpieces.imp (fun a b hab ↦ ?_)
  have hcategory : a.category = b.category := congrArg (fun piece ↦ piece.category) hab
  have hlength : a.blur.chars.length = b.blur.chars.length :=
    congrArg (fun piece ↦ piece.chars.length) hab
  rw [Raw.Piece.blur, Raw.Piece.blur, List.length_map, List.length_map] at hlength
  refine ⟨hcategory, ?_⟩
  rw [Raw.Piece.span_text, Raw.Piece.span_text, unescape_escape, unescape_escape,
    String.length_ofList, String.length_ofList, hlength]

theorem Line.ofSource_inert_ampersands :
    let raw := "T&gt; f&(1.&2) '&' A&lt;B>"
    let other := "T;gt; f=(1.,2) 'é' A;lt;B>"
    List.Forall₂ (fun a b ↦ a = b ∨ (isInert a ∧ isInert b)) raw.toList other.toList ∧
      List.Forall₂ (fun a b ↦ a.category = b.category ∧
        (unescape a.text).length = (unescape b.text).length)
        (Line.ofSource {} raw 1).value.spans (Line.ofSource {} other 1).value.spans := by
  intro raw other
  have h : List.Forall₂ (fun a b ↦ a = b ∨ (isInert a ∧ isInert b)) raw.toList other.toList := by
    decide
  exact ⟨h, Line.ofSource_inert {} 1 h⟩

end ScriptSpans
