import ScriptSpans.Angle
import ScriptSpans.Proofs.Line.Regions
import ScriptSpans.Proofs.Ownership

namespace ScriptSpans.Raw

open Lexicon Markup Region Angle

/-- From `position` on, where the pieces lie, exactly their regions are owned, and `limit` is their
end or their comment. -/
structure Surroundings (isOwned : Nat → Bool) (limit position : Nat) (pieces : List Piece) :
    Prop where
  owned : ∀ q, position ≤ q →
    (isOwned q ↔ ∃ c ∈ claimsAt position pieces, c.category.isRegion ∧ c.Covers q)
  limit_eq : limit = codeEndAt position pieces

namespace Surroundings

variable {isOwned : Nat → Bool} {limit position : Nat} {piece : Piece} {later : List Piece}

theorem tail (h : Surroundings isOwned limit position (piece :: later))
    (hcomment : piece.category ≠ .comment) :
    Surroundings isOwned limit (position + width piece.chars) later where
  owned q hq := by
    rw [h.owned q (by omega)]
    by_cases hplain : piece.category = .plain
    · rw [claimsAt, if_pos hplain]
    · rw [claimsAt_cons hplain]
      simp only [List.mem_cons, exists_eq_or_imp, or_iff_right_iff_imp]
      rintro ⟨-, hcovers⟩
      have hlt := hcovers.2
      simp only [Claim.stop] at hlt
      omega
  limit_eq := by rw [h.limit_eq, codeEndAt, if_neg hcomment]

theorem le_limit (h : Surroundings isOwned limit position (piece :: later))
    (hcomment : piece.category ≠ .comment) : position + width piece.chars ≤ limit := by
  rw [(h.tail hcomment).limit_eq]
  exact le_codeEndAt _ _

theorem not_owned (h : Surroundings isOwned limit position (piece :: later))
    (hregion : piece.category.isRegion = false) {q : Nat} (hq : position ≤ q)
    (hlt : q < position + width piece.chars) : isOwned q = false := by
  rw [Bool.eq_false_iff, ne_eq, h.owned q hq]
  rintro ⟨c, hc, hcregion, hcovers⟩
  by_cases hplain : piece.category = .plain
  · rw [claimsAt, if_pos hplain] at hc
    have hstart := (claimsAt_bounds hc).1
    have hcover := hcovers.1
    omega
  · rw [claimsAt_cons hplain] at hc
    rcases List.mem_cons.mp hc with rfl | hc
    · rw [hregion] at hcregion
      cases hcregion
    · have hstart := (claimsAt_bounds hc).1
      have hcover := hcovers.1
      omega

theorem is_owned (h : Surroundings isOwned limit position (piece :: later))
    (hregion : piece.category.isRegion) {q : Nat} (hq : position ≤ q)
    (hlt : q < position + width piece.chars) : isOwned q := by
  have hplain : piece.category ≠ .plain := fun hplain ↦ by rw [hplain] at hregion; cases hregion
  rw [h.owned q hq, claimsAt_cons hplain]
  exact ⟨_, List.mem_cons_self, hregion, hq, hlt⟩

end Surroundings

theorem closingFrom_ne_nil (isOwned : Nat → Bool) (limit position : Nat) (text : List Char) :
    closingFrom isOwned limit position text ≠ [] := by
  cases text with
  | nil => simp [closingFrom]
  | cons c rest =>
    rw [closingFrom]
    split <;> simp

theorem drop_closingFrom (isOwned : Nat → Bool) {limit position : Nat} {block : List Char}
    (h : position + block.length ≤ limit) (text : List Char) :
    (closingFrom isOwned limit position (block ++ text)).drop block.length =
      closingFrom isOwned limit (position + block.length) text := by
  induction block generalizing position with
  | nil => rfl
  | cons x block ih =>
    rw [List.length_cons] at h
    rw [List.cons_append, closingFrom, if_neg (by omega), List.length_cons, List.drop_succ_cons,
      ih (by omega), Nat.add_assoc, Nat.add_comm 1]

theorem head?_closingFrom_cons {isOwned : Nat → Bool} {limit position : Nat} {c : Char}
    {text : List Char} (hlimit : position < limit) (hfree : isOwned position = false)
    (hleft : left.isPrefixOf (c :: text) = false) (hright : right.isPrefixOf (c :: text) = false) :
    (closingFrom isOwned limit position (c :: text)).head? =
      (closingFrom isOwned limit (position + 1) text).head? := by
  obtain ⟨here, later, hlater⟩ := List.exists_cons_of_ne_nil
    (closingFrom_ne_nil isOwned limit (position + 1) text)
  rw [closingFrom, if_neg (Nat.not_le.mpr hlimit), hfree, hleft, hright, hlater]
  rfl

theorem head?_closingFrom_block {isOwned : Nat → Bool} {limit position : Nat} {block : List Char}
    (hamp : '&' ∉ block) (hlimit : position + block.length ≤ limit)
    (hfree : ∀ q, position ≤ q → q < position + block.length → isOwned q = false)
    (text : List Char) :
    (closingFrom isOwned limit position (block ++ text)).head? =
      (closingFrom isOwned limit (position + block.length) text).head? := by
  induction block generalizing position with
  | nil => rfl
  | cons x block ih =>
    simp only [List.mem_cons, not_or, List.length_cons] at hamp hlimit hfree
    have hleft : left.isPrefixOf (x :: (block ++ text)) = false := by
      simp [left, List.isPrefixOf, hamp.1]
    have hright : right.isPrefixOf (x :: (block ++ text)) = false := by
      simp [right, List.isPrefixOf, hamp.1]
    rw [List.cons_append, head?_closingFrom_cons (by omega)
      (hfree _ (Nat.le_refl _) (by omega)) hleft hright,
      ih hamp.2 (by omega) (fun q hq hlt ↦ hfree q (by omega) (by omega)), List.length_cons]
    congr 2
    omega

theorem region_of_literal {c : Category} (h : c.isLiteral) : c.isRegion := by
  simp [Category.isRegion, h]

theorem closes_block {block : List Char} (hopen : ∀ x ∈ block, mayOpen x = false)
    (hmarkup : ∀ x ∈ block, isMarkup x = false) (text : List Char) :
    closes (block ++ text) = closes text := by
  induction block with
  | nil => rfl
  | cons x block ih =>
    obtain ⟨hx, hblock⟩ := List.forall_mem_cons.mp hopen
    obtain ⟨hm, hblockm⟩ := List.forall_mem_cons.mp hmarkup
    have hmark := commentMark_of_not_mayOpen hx (block ++ text)
    simp only [mayOpen, Bool.or_eq_false_iff] at hx
    simp only [isMarkup, Bool.or_eq_false_iff] at hm
    rw [List.cons_append, closes, hx.1, hm.1.2, hmark, ih hblock hblockm]
    simp [of_decide_eq_false hm.2]

theorem not_markup_of_isIdentifierChar {c : Char} (h : isIdentifierChar c) :
    isMarkup c = false := by
  rw [Bool.eq_false_iff]
  intro hc
  rcases markup_cases hc with rfl | rfl | rfl <;> exact absurd h (by decide)

theorem not_markup_fraction {w : Word} (h : w.Maximal) {digits : List Char}
    (hdigits : ∀ d ∈ digits, d.isDigit) : ∀ c ∈ w.chars ++ '.' :: digits, isMarkup c = false := by
  intro c hc
  rcases List.mem_append.mp hc with hc | hc
  · exact not_markup_of_isIdentifierChar (h.identifier c hc)
  · rcases List.mem_cons.mp hc with rfl | hc
    · rfl
    · exact not_markup_of_isIdentifierChar
        (by simp [isIdentifierChar, Char.isAlphanum, hdigits c hc])

/-- Before a piece that holds no bracket, the table and the look ahead go on to the next piece. -/
theorem head?_closingFrom_piece {isOwned : Nat → Bool} {limit position : Nat} {body : List Char}
    {category : Category} {later : List Piece}
    (h : Surroundings isOwned limit position (⟨category, body⟩ :: later))
    (hregion : category.isRegion = false) (hmarkup : ∀ x ∈ body, isMarkup x = false)
    (text : List Char) :
    (closingFrom isOwned limit position (escapeList (body ++ text))).head? =
      (closingFrom isOwned limit (position + width body) (escapeList text)).head? := by
  have hcomment := of_decide_eq_false (not_comment_of_not_region hregion)
  have hamp : '&' ∉ escapeList body := by
    rw [escapeList_eq_self hmarkup]
    exact fun hmem ↦ by cases hmarkup _ hmem
  rw [escapeList_append]
  exact head?_closingFrom_block hamp (h.le_limit hcomment)
    (fun q hq hlt ↦ h.not_owned hregion hq hlt) _

theorem head?_closingFrom_stop {isOwned : Nat → Bool} {limit position : Nat}
    (h : isOwned position ∨ limit ≤ position) (text : List Char) :
    (closingFrom isOwned limit position text).head? = some false := by
  cases text with
  | nil => rfl
  | cons c rest =>
    rw [closingFrom]
    split
    · rfl
    · rename_i hlimit
      simp [h.resolve_right hlimit]

theorem closes_literal {text : List Char} {head : Nat × Category} (h : literal? text = some head) :
    closes text = false := by
  cases text with
  | nil => cases h
  | cons c rest =>
    have hdelimiter : isDelimiter c := by
      rw [literal?] at h
      split at h
      · rename_i hbacktick
        simp [isDelimiter, hbacktick]
      · split at h
        · rename_i hquote
          simp [isDelimiter, hquote]
        · cases h
    simp [closes, hdelimiter]

theorem closes_mark {text : List Char} (h : commentMark <+: text) : closes text = false := by
  obtain ⟨rest, rfl⟩ := h
  rfl

theorem head?_closingFrom_amp {isOwned : Nat → Bool} {limit position : Nat}
    (hlimit : position + 5 ≤ limit) (hfree : ∀ q, position ≤ q → q < position + 5 →
      isOwned q = false) (text : List Char) :
    (closingFrom isOwned limit position (['&', 'a', 'm', 'p', ';'] ++ text)).head? =
      (closingFrom isOwned limit (position + 5) text).head? := by
  have hfirst := hfree position (Nat.le_refl _) (by omega)
  have hname : '&' ∉ ['a', 'm', 'p', ';'] := by decide
  have hrest : position + 1 + ['a', 'm', 'p', ';'].length ≤ limit := by simpa using hlimit
  have hlater : ∀ q, position + 1 ≤ q → q < position + 1 + ['a', 'm', 'p', ';'].length →
      isOwned q = false := by
    intro q hq hlt
    simp only [List.length_cons, List.length_nil] at hlt
    exact hfree q (by omega) (by omega)
  have hblock := head?_closingFrom_block hname hrest hlater text
  exact (head?_closingFrom_cons (by omega) hfirst rfl rfl).trans hblock

theorem head?_closingFrom_other {isOwned : Nat → Bool} {limit position : Nat} {c : Char}
    {rest : List Char} {later : List Piece} (closed : literal? (c :: rest) = none)
    (mark : ¬ commentMark <+: c :: rest)
    (h : Surroundings isOwned limit position (⟨.plain, [c]⟩ :: later))
    (ih : (closingFrom isOwned limit (position + width [c]) (escapeList rest)).head? =
      some (closes rest)) :
    (closingFrom isOwned limit position (escapeList (c :: rest))).head? =
      some (closes (c :: rest)) := by
  have hlimit : position + width [c] ≤ limit := h.le_limit (by simp)
  have hfree : ∀ q, position ≤ q → q < position + width [c] → isOwned q = false :=
    fun q hq hlt ↦ h.not_owned rfl hq hlt
  by_cases hc : isMarkup c
  · have hpos : 0 < width [c] := width_pos (List.cons_ne_nil _ _)
    have hfirst := hfree position (Nat.le_refl _) (by omega)
    rcases markup_cases hc with rfl | rfl | rfl
    · exact (head?_closingFrom_amp hlimit hfree _).trans ih
    · rw [escapeList_cons, escapeChar_eq, if_neg (by decide), if_pos rfl,
        List.cons_append, closingFrom, if_neg (by omega), hfirst]
      rfl
    · rw [escapeList_cons, escapeChar_eq, if_neg (by decide), if_neg (by decide), if_pos rfl,
        List.cons_append, closingFrom, if_neg (by omega), hfirst]
      rfl
  · have hself : ∀ x ∈ [c], isMarkup x = false := by simpa using hc
    have hmark : commentMark.isPrefixOf (c :: rest) = false :=
      commentMark_isPrefixOf_eq_false.mpr mark
    have hpiece := head?_closingFrom_piece h rfl hself rest
    rw [List.singleton_append, ih] at hpiece
    simp only [isMarkup, Bool.not_eq_true, Bool.or_eq_false_iff] at hc
    obtain ⟨hbacktick, hquote⟩ := not_literal_cons closed
    rw [hpiece, closes, isDelimiter, hbacktick, hquote, hc.1.2, hmark]
    simp [of_decide_eq_false hc.2]

/-- Between pieces, the table made over the markup agrees with the look ahead over the raw text. -/
theorem head?_closingFrom {previous : Option Char} {text : List Char} {pieces : List Piece}
    (hcuts : Cuts previous text pieces) {isOwned : Nat → Bool} {limit position : Nat}
    (h : Surroundings isOwned limit position pieces) :
    (closingFrom isOwned limit position (escapeList text)).head? = some (closes text) := by
  induction hcuts generalizing position with
  | nil => rfl
  | literal opens _ _ =>
    have hpos := width_pos (List.length_pos_iff.mp (literal?_length opens).1)
    have hregion : Category.isRegion _ := region_of_literal (literal?_isLiteral opens)
    rw [closes_literal opens]
    exact head?_closingFrom_stop
      (.inl (h.is_owned hregion (Nat.le_refl _) (Nat.lt_add_of_pos_right hpos))) _
  | comment closed mark =>
    rw [closes_mark mark]
    exact head?_closingFrom_stop (.inr (Nat.le_of_eq h.limit_eq)) _
  | @word w category pieces maximal head _ ih =>
    have hregion := ofWord_not_region (closes w.after) w
    rw [head] at hregion
    have hmarkup := fun c hc ↦ not_markup_of_isIdentifierChar (maximal.identifier c hc)
    rw [head?_closingFrom_piece h hregion hmarkup, closes_block (not_mayOpen_word maximal) hmarkup]
    exact ih (h.tail (of_decide_eq_false (not_comment_of_not_region hregion)))
  | fraction maximal _ _ decimal _ _ _ ih =>
    have hmarkup := not_markup_fraction maximal decimal
    rw [← List.cons_append, ← List.append_assoc, head?_closingFrom_piece h rfl hmarkup,
      closes_block (not_mayOpen_fraction maximal decimal) hmarkup]
    exact ih (h.tail (by simp))
  | other closed mark _ _ ih => exact head?_closingFrom_other closed mark h (ih (h.tail (by simp)))

end ScriptSpans.Raw
