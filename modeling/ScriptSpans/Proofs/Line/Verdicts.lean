import ScriptSpans.Proofs.Line.Words

namespace ScriptSpans.Raw

open Lexicon Markup Region Angle

/-- The claim that a word makes by itself, given the table of closing brackets. -/
def verdict (closing : Array Bool) (w : Word) : Option Claim :=
  let head := ofWord (closing[w.stop]?.getD false) w
  if head.2 = .plain then none else some ⟨w.start, head.1, head.2⟩

/-- The claims that words make one after the other, where `last` is the claim before them. -/
inductive Settles (closing : Array Bool) : Option Claim → List Word → List Claim → Prop
  | nil {last : Option Claim} : Settles closing last [] []
  | absorbed {c : Claim} {w : Word} {words : List Word} {claims : List Claim}
      (number : c.category = .number) (covers : c.Covers w.start) (decimal : w.firstIs Char.isDigit)
      (tail : Settles closing (some c) words claims) : Settles closing (some c) (w :: words) claims
  | unclaimed {last : Option Claim} {w : Word} {words : List Word} {claims : List Claim}
      (inside : w.stop < closing.size) (silent : verdict closing w = none)
      (tail : Settles closing last words claims) : Settles closing last (w :: words) claims
  | claimed {last : Option Claim} {c : Claim} {w : Word} {words : List Word} {claims : List Claim}
      (inside : w.stop < closing.size) (speaks : verdict closing w = some c)
      (tail : Settles closing (some c) words claims) :
        Settles closing last (w :: words) (c :: claims)

section scan

variable {isOwned : Nat → Bool} {limit position : Nat} {piece : Piece} {later : List Piece}
  {closing : Array Bool} {rest : List Char}

def Shows (isOwned : Nat → Bool) (limit position : Nat) (closing : Array Bool)
    (text : List Char) : Prop :=
  closing.toList.drop position = closingFrom isOwned limit position (escapeList text)

theorem Shows.tail (htable : Shows isOwned limit position closing (piece.chars ++ rest))
    (h : Surroundings isOwned limit position (piece :: later))
    (hcomment : piece.category ≠ .comment) :
    Shows isOwned limit (position + width piece.chars) closing rest := by
  rw [Shows] at htable ⊢
  rw [← List.drop_drop, htable, escapeList_append, width]
  exact drop_closingFrom isOwned (h.le_limit hcomment) _

theorem Shows.getElem? {previous : Option Char} {pieces : List Piece}
    (htable : Shows isOwned limit position closing rest)
    (hcuts : Cuts previous rest pieces) (h : Surroundings isOwned limit position pieces) :
    closing[position]? = some (closes rest) := by
  rw [← Array.getElem?_toList, ← List.head?_drop, htable, head?_closingFrom hcuts h]

theorem verdict_word {w : Word} (maximal : w.Maximal) {before : Option Char}
    (hbefore : before.any isGuard = w.previous.any isGuard) {answer : Bool}
    (hclosing : closing[position + w.chars.length]? = some answer) {length : Nat}
    {category : Category} (head : ofWord answer w = (length, category)) :
    verdict closing ⟨position, before, w.chars, escapeList w.after⟩ =
      if category = .plain then none else some ⟨position, length, category⟩ := by
  have hself := fun c hc ↦ not_markup_of_isIdentifierChar (maximal.identifier c hc)
  have hstop :
      (⟨position, before, w.chars, escapeList w.after⟩ : Word).stop = position + w.chars.length :=
      rfl
  rw [verdict, hstop, hclosing, Option.getD_some,
    ofWord_escapeList (w := w) (v := ⟨position, before, w.chars, escapeList w.after⟩) hself rfl rfl
      hbefore, head]

theorem any_isIdentifierChar_escapeList {text : List Char}
    (h : text.head?.any isIdentifierChar = false) :
    (escapeList text).head?.any isIdentifierChar = false := by
  rw [any_head?_escapeList (fun c hc ↦ ?_), h]
  rw [Bool.eq_false_iff]
  exact fun hidentifier ↦ by rw [not_markup_of_isIdentifierChar hidentifier] at hc; cases hc

def codeClaimsAt (position : Nat) (pieces : List Piece) : List Claim :=
  (claimsAt position pieces).filter (fun c ↦ !c.category.isRegion)

theorem codeClaimsAt_cons (hregion : piece.category.isRegion = false) :
    codeClaimsAt position (piece :: later) =
      if piece.category = .plain then codeClaimsAt (position + width piece.chars) later
      else ⟨position, width piece.chars, piece.category⟩ ::
        codeClaimsAt (position + width piece.chars) later := by
  unfold codeClaimsAt
  split
  · rename_i hplain
    rw [claimsAt, if_pos hplain]
  · rename_i hplain
    exact filter_claimsAt_of (q := fun c ↦ !c.isRegion) _ _ (by simp [hregion]) hplain

theorem codeClaimsAt_region (hregion : piece.category.isRegion) :
    codeClaimsAt position (piece :: later) = codeClaimsAt (position + width piece.chars) later :=
  filter_claimsAt_of_not (q := fun c ↦ !c.isRegion) _ _ (by simp [hregion])

theorem settles_word {w : Word} {category : Category} (maximal : w.Maximal)
    (head : ofWord (closes w.after) w = (w.length, category))
    (tail : Cuts w.chars.getLast? w.after later)
    (h : Surroundings isOwned limit position (⟨category, w.chars⟩ :: later))
    (htable : Shows isOwned limit position closing (w.chars ++ w.after)) {before : Option Char}
    (hbefore : before.any isGuard = w.previous.any isGuard) (hrest : ∀ last, Settles closing last
      (Word.scan isOwned (position + width w.chars) w.chars.getLast? 0 (escapeList w.after))
      (codeClaimsAt (position + width w.chars) later)) (last : Option Claim) :
    Settles closing last (Word.scan isOwned position before 0 (escapeList (w.chars ++ w.after)))
      (codeClaimsAt position (⟨category, w.chars⟩ :: later)) := by
  have hregion := ofWord_not_region (closes w.after) w
  rw [head] at hregion
  have hcomment := of_decide_eq_false (not_comment_of_not_region hregion)
  have hself := fun c hc ↦ not_markup_of_isIdentifierChar (maximal.identifier c hc)
  have hwidth : width w.chars = w.chars.length := width_eq_length hself
  have hclosing := (htable.tail h hcomment).getElem? tail (h.tail hcomment)
  have hfree :=
    h.not_owned hregion (Nat.le_refl _) (Nat.lt_add_of_pos_right (width_pos maximal.nonempty))
  have hinside : position + w.chars.length < closing.size := by
    rw [← hwidth]
    exact (Array.getElem?_eq_some_iff.mp hclosing).1
  have hverdict := verdict_word maximal hbefore (hwidth ▸ hclosing) head
  rw [escapeList_append, escapeList_eq_self hself,
    scan_word before hfree maximal.nonempty maximal.identifier
      (any_isIdentifierChar_escapeList maximal.stop),
    codeClaimsAt_cons hregion]
  split
  · rename_i hplain
    rw [if_pos hplain] at hverdict
    exact .unclaimed hinside hverdict (hwidth ▸ hrest last)
  · rename_i hplain
    rw [if_neg hplain] at hverdict
    rw [hwidth] at hrest ⊢
    exact .claimed hinside hverdict (hrest _)

theorem ofWord_number {w : Word} {answer : Bool} {length : Nat}
    (h : ofWord answer w = (length, .number)) (other : Bool) :
    ofWord other w = (length, .number) := by
  unfold ofWord at h ⊢
  split
  · rename_i hkeyword
    rw [if_pos hkeyword] at h
    cases h
  rename_i hkeyword
  rw [if_neg hkeyword] at h
  split
  · rename_i hupper
    rw [if_pos hupper] at h
    cases answer <;> cases h
  · rename_i hupper
    rwa [if_neg hupper] at h

theorem settles_fraction {w : Word} {digits : List Char} (maximal : w.Maximal)
    (nonempty : digits ≠ []) (decimal : ∀ d ∈ digits, d.isDigit)
    (unguarded : rest.head?.any isGuard = false) (point : w.after = '.' :: (digits ++ rest))
    (head : ofWord (closes w.after) w = (w.length + 1 + digits.length, .number))
    (tail : Cuts digits.getLast? rest later)
    (h : Surroundings isOwned limit position (⟨.number, w.chars ++ '.' :: digits⟩ :: later))
    (htable : Shows isOwned limit position closing (w.chars ++ '.' :: (digits ++ rest)))
    {before : Option Char} (hbefore : before.any isGuard = w.previous.any isGuard)
    (hrest : ∀ last, Settles closing last
      (Word.scan isOwned (position + width (w.chars ++ '.' :: digits)) digits.getLast? 0
        (escapeList rest))
      (codeClaimsAt (position + width (w.chars ++ '.' :: digits)) later)) (last : Option Claim) :
    Settles closing last (Word.scan isOwned position before 0
      (escapeList (w.chars ++ '.' :: (digits ++ rest))))
      (codeClaimsAt position (⟨.number, w.chars ++ '.' :: digits⟩ :: later)) := by
  have hsplit : w.chars ++ '.' :: (digits ++ rest) = (w.chars ++ '.' :: digits) ++ rest := by simp
  have hself := not_markup_fraction maximal decimal
  have hwidth : width (w.chars ++ '.' :: digits) = w.chars.length + 1 + digits.length := by
    rw [width_eq_length hself, List.length_append, List.length_cons, Nat.add_assoc, Nat.add_comm 1]
  have hfree := fun q hq hlt ↦ h.not_owned rfl (q := q) hq hlt
  rw [hwidth] at hfree
  have hend := (Shows.tail (hsplit ▸ htable) h (by simp)).getElem? tail (h.tail (by simp))
  have hsize := (Array.getElem?_eq_some_iff.mp hend).1
  rw [hwidth] at hsize
  have hinside : position + w.chars.length < closing.size := by omega
  have hverdict :=
    verdict_word maximal hbefore (Array.getElem?_eq_getElem hinside) (ofWord_number head _)
  have hstop := any_isIdentifierChar_escapeList (any_isIdentifierChar_of_isGuard unguarded)
  have hdigits : ∀ d ∈ digits, isIdentifierChar d :=
    fun d hd ↦ by simp [isIdentifierChar, Char.isAlphanum, decimal d hd]
  have htext :
      escapeList (w.chars ++ '.' :: (digits ++ rest)) =
      w.chars ++ '.' :: (digits ++ escapeList rest) := by
    rw [hsplit, escapeList_append, escapeList_eq_self hself, List.append_assoc, List.cons_append]
  have hafter : escapeList w.after = '.' :: (digits ++ escapeList rest) := by
    rw [point, escapeList_cons_of_not_markup rfl, escapeList_append,
      escapeList_eq_self (fun d hd ↦ not_markup_of_isIdentifierChar (hdigits d hd))]
  rw [htext, scan_fraction before maximal.nonempty nonempty maximal.identifier hdigits hstop hfree,
    codeClaimsAt_cons rfl, if_neg (by simp), hwidth]
  rw [hwidth] at hrest
  have hpos := List.length_pos_iff.mpr nonempty
  -- the word of the integer part claims the whole number, and takes in the word of the fraction
  refine .claimed hinside (hafter ▸ hverdict) (.absorbed rfl ⟨?_, ?_⟩ ?_ (hrest _))
  · show position ≤ position + w.chars.length + 1
    omega
  · show position + w.chars.length + 1 < position + (w.chars.length + 1 + digits.length)
    omega
  · obtain ⟨d, more, rfl⟩ := List.exists_cons_of_ne_nil nonempty
    exact decimal d List.mem_cons_self

theorem settles_other {c : Char} (apart : isIdentifierChar c = false)
    (h : Surroundings isOwned limit position (⟨.plain, [c]⟩ :: later)) (before : Option Char)
    (hrest : ∀ (before last), before.any isGuard = (some c).any isGuard → Settles closing last
      (Word.scan isOwned (position + width [c]) before 0 (escapeList rest))
      (codeClaimsAt (position + width [c]) later)) (last : Option Claim) :
    Settles closing last (Word.scan isOwned position before 0 (escapeList (c :: rest)))
      (codeClaimsAt position (⟨.plain, [c]⟩ :: later)) := by
  have hfree :=
    h.not_owned rfl (Nat.le_refl _) (Nat.lt_add_of_pos_right (width_pos (List.cons_ne_nil c [])))
  rw [codeClaimsAt_cons rfl, if_pos rfl]
  by_cases hc : isMarkup c
  · have hguard : (some ';').any isGuard = (some c).any isGuard := by
      rw [Option.any_some, Option.any_some, isGuard_of_markup hc]
      rfl
    have hwidth : width [c] = (escapeChar c).length := by rw [width_cons, width_nil, Nat.add_zero]
    rw [escapeList_cons, scan_markup before hfree hc, ← hwidth]
    exact hrest _ last hguard
  · have hmarkup : isMarkup c = false := by simpa using hc
    have hamp : c ≠ '&' := by rintro rfl; exact hc rfl
    have hwidth : width [c] = 1 := width_eq_length (by simpa using hmarkup)
    rw [escapeList_cons_of_not_markup hmarkup, scan_other before hfree hamp apart, ← hwidth]
    exact hrest _ last rfl

theorem settles_scan {previous : Option Char} {text : List Char} {pieces : List Piece}
    (hcuts : Cuts previous text pieces) (h : Surroundings isOwned limit position pieces)
    (htable : Shows isOwned limit position closing text) {before : Option Char}
    (hbefore : before.any isGuard = previous.any isGuard) (last : Option Claim) :
    Settles closing last (Word.scan isOwned position before 0 (escapeList text))
      (codeClaimsAt position pieces) := by
  induction hcuts generalizing position before last with
  | nil => exact .nil
  | @literal previous body rest category pieces opens _ ih =>
    have hregion := region_of_literal (literal?_isLiteral opens)
    have hcomment := of_decide_eq_false (literal?_not_comment opens)
    have hbody : escapeList body ≠ [] :=
      List.length_pos_iff.mp (width_pos (List.length_pos_iff.mp (literal?_length opens).1))
    have hguard :
        ((escapeList body).getLast?.or before).any isGuard = body.getLast?.any isGuard := by
      rw [Option.or_of_isSome (by simpa using hbody),
        any_getLast?_escapeList (fun _ ↦ isGuard_of_markup) rfl]
    rw [escapeList_append, scan_owned before (fun q hq hlt ↦ h.is_owned hregion hq hlt),
      codeClaimsAt_region hregion]
    exact ih (h.tail hcomment) (htable.tail h hcomment) hguard last
  | comment closed mark =>
    have howned := scan_owned before (fun q hq hlt ↦ h.is_owned (by rfl) hq hlt) []
    rw [List.append_nil] at howned
    rw [howned]
    exact .nil
  | @word w category pieces maximal head tail ih =>
    have hregion := ofWord_not_region (closes w.after) w
    rw [head] at hregion
    have hcomment := of_decide_eq_false (not_comment_of_not_region hregion)
    exact settles_word maximal head tail h htable hbefore
      (fun last ↦ ih (h.tail hcomment) (htable.tail h hcomment) rfl last) last
  | @fraction w digits rest pieces maximal point nonempty decimal unguarded head tail ih =>
    have hsplit : w.chars ++ '.' :: (digits ++ rest) = (w.chars ++ '.' :: digits) ++ rest := by simp
    exact settles_fraction maximal nonempty decimal unguarded point head tail h htable hbefore
      (fun last ↦ ih (h.tail (by simp)) (Shows.tail (hsplit ▸ htable) h (by simp)) rfl last) last
  | @other previous c rest pieces closed mark apart tail ih =>
    exact settles_other apart h before
      (fun _ last hguard ↦ ih (h.tail (by simp)) (htable.tail h (by simp)) hguard last) last

end scan

end ScriptSpans.Raw
