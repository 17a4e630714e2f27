import ScriptSpans.Proofs.Line.Claims

namespace ScriptSpans

open Lexicon Markup

def Category.isLiteral (c : Category) : Bool := c = .templateString || c = .string

def Category.isRegion (c : Category) : Bool := c = .comment || c.isLiteral

namespace Region

theorem literal?_isLiteral {text : List Char} {length : Nat} {category : Category}
    (h : literal? text = some (length, category)) : category.isLiteral := by
  cases text with
  | nil => cases h
  | cons c rest =>
    rw [literal?] at h
    split at h
    · cases h
      rfl
    · split at h <;> cases h
      rfl

theorem not_literal_cons {c : Char} {rest : List Char} (h : literal? (c :: rest) = none) :
    isBacktick c = false ∧ isQuote c = false := by
  rw [literal?] at h
  split at h
  · cases h
  · rename_i hbacktick
    split at h
    · cases h
    · rename_i hquote
      exact ⟨by simpa using hbacktick, by simpa using hquote⟩

theorem templateLength_append {block : List Char} (h : ∀ x ∈ block, isBacktick x = false)
    (text : List Char) : templateLength (block ++ text) = block.length + templateLength text := by
  induction block with
  | nil => simp
  | cons x block ih =>
    rw [List.cons_append, templateLength, h x (by simp), ih (fun y hy ↦ h y (by simp [hy])),
      List.length_cons, if_neg Bool.false_ne_true]
    omega

theorem templateLength_escapeList (text : List Char) :
    templateLength (escapeList text) = width (text.take (templateLength text)) := by
  induction text with
  | nil => rfl
  | cons c rest ih =>
    by_cases hc : isBacktick c
    · have hmarkup : isMarkup c = false := by
        obtain rfl : c = '\x60' := by simpa [isBacktick] using hc
        rfl
      rw [escapeList_cons_of_not_markup hmarkup, templateLength, templateLength,
        if_pos hc, if_pos hc, List.take_succ_cons, List.take_zero,
        width_eq_length (by simpa using hmarkup), List.length_singleton]
    · have hblock : ∀ x ∈ escapeChar c, isBacktick x = false :=
        forall_mem_escapeChar (by simp [entityChars, isBacktick]) (by simpa using hc)
      rw [escapeList_cons, templateLength_append hblock, ih, templateLength, if_neg hc,
        List.take_succ_cons, width_cons]

theorem quotedLength_append {quote : Char} {block : List Char}
    (h : ∀ x ∈ block, isBackslash x = false ∧ x ≠ quote) (text : List Char) :
    quotedLength quote (block ++ text) = block.length + quotedLength quote text := by
  induction block with
  | nil => simp
  | cons x block ih =>
    obtain ⟨hslash, hquote⟩ := h x (by simp)
    rw [List.cons_append, quotedLength_cons hslash, if_neg hquote,
      ih (fun y hy ↦ h y (by simp [hy])), List.length_cons]
    omega

/-- A backslash takes only the first character of an entity along, but the others end nothing. -/
theorem quotedLength_escapeList {quote : Char} (hquote : isQuote quote) (text : List Char) :
    quotedLength quote (escapeList text) = width (text.take (quotedLength quote text)) := by
  have hentity : ∀ x ∈ entityChars, isBackslash x = false ∧ x ≠ quote := by
    simp only [isQuote, Bool.or_eq_true, decide_eq_true_eq] at hquote
    rcases hquote with rfl | rfl <;> simp [entityChars, isBackslash]
  fun_induction quotedLength quote text with
  | case1 => rfl
  | case2 c hc =>
    obtain rfl : c = '\x5c' := by simpa [isBackslash] using hc
    rfl
  | case3 c hc d rest ih =>
    obtain rfl : c = '\x5c' := by simpa [isBackslash] using hc
    have hd : ∃ y name, escapeChar d = y :: name ∧ ∀ x ∈ name, x ∈ entityChars := by
      by_cases hmarkup : isMarkup d
      · obtain ⟨name, hname, hmem⟩ := escapeChar_of_markup hmarkup
        exact ⟨'&', name, hname, fun x hx ↦ (hmem x hx).1⟩
      · exact ⟨d, [], escapeChar_of_not_markup (by simpa using hmarkup), by simp⟩
    obtain ⟨y, name, hname, hmem⟩ := hd
    rw [escapeList_cons_of_not_markup rfl, escapeList_cons, hname, List.cons_append,
      quotedLength_backslash hc, quotedLength_append (fun x hx ↦ hentity x (hmem x hx)), ih,
      List.take_succ_cons, List.take_succ_cons, width_cons, width_cons, hname,
      escapeChar_of_not_markup rfl]
    simp only [List.length_cons, List.length_nil]
    omega
  | case4 rest hslash =>
    have hmarkup : isMarkup quote = false := by
      simp only [isQuote, Bool.or_eq_true, decide_eq_true_eq] at hquote
      rcases hquote with rfl | rfl <;> rfl
    rw [escapeList_cons_of_not_markup hmarkup,
      quotedLength_cons (by simpa using hslash), if_pos rfl, List.take_succ_cons, List.take_zero,
      width_eq_length (by simpa using hmarkup), List.length_singleton]
  | case5 c rest hslash hne ih =>
    have hblock : ∀ x ∈ escapeChar c, isBackslash x = false ∧ x ≠ quote :=
      forall_mem_escapeChar hentity ⟨by simpa using hslash, hne⟩
    rw [escapeList_cons, quotedLength_append hblock, ih, List.take_succ_cons, width_cons]

theorem literal?_escapeList (text : List Char) :
    literal? (escapeList text) =
      (literal? text).map (fun head ↦ (width (text.take head.1), head.2)) := by
  cases text with
  | nil => rfl
  | cons c rest =>
    by_cases hc : isMarkup c
    · obtain ⟨name, hname, -⟩ := escapeChar_of_markup hc
      have hraw : literal? (c :: rest) = none := by
        rcases markup_cases hc with rfl | rfl | rfl <;> rfl
      rw [hraw, escapeList_cons, hname]
      rfl
    · have hone : (escapeChar c).length = 1 := by
        rw [escapeChar_of_not_markup (by simpa using hc)]; rfl
      rw [escapeList_cons_of_not_markup (by simpa using hc), literal?, literal?]
      split
      · rw [templateLength_escapeList, Option.map_some, List.take_succ_cons, width_cons, hone,
          Nat.add_comm]
      split
      · rename_i hquote
        rw [quotedLength_escapeList hquote, Option.map_some, List.take_succ_cons, width_cons, hone,
          Nat.add_comm]
      · rfl

theorem commentMark_prefix_escapeList (text : List Char) :
    commentMark <+: escapeList text ↔ commentMark <+: text := by
  have hslash : isMarkup '/' = false := rfl
  have hcons : ∀ (word : List Char) (text : List Char), '/' :: word <+: escapeList text ↔
      ∃ rest, text = '/' :: rest ∧ word <+: escapeList rest := by
    intro word text
    cases text with
    | nil => simp
    | cons c rest =>
      by_cases hc : isMarkup c
      · obtain ⟨name, hname, -⟩ := escapeChar_of_markup hc
        have hne : c ≠ '/' := by rintro rfl; cases hc
        simp [escapeList_cons, hname, hne]
      · rw [escapeList_cons_of_not_markup (Bool.eq_false_iff.mpr hc), List.cons_prefix_cons]
        constructor
        · rintro ⟨rfl, hrest⟩
          exact ⟨rest, rfl, hrest⟩
        · rintro ⟨after, htext, hrest⟩
          obtain ⟨rfl, rfl⟩ := List.cons.inj htext
          exact ⟨rfl, hrest⟩
  rw [commentMark, hcons]
  constructor
  · rintro ⟨rest, rfl, hrest⟩
    obtain ⟨after, rfl, -⟩ := (hcons _ _).mp hrest
    exact List.prefix_append ['/', '/'] after
  · rintro ⟨after, rfl⟩
    exact ⟨'/' :: after, rfl, (hcons _ _).mpr ⟨after, rfl, List.nil_prefix⟩⟩

def mayOpen (c : Char) : Bool := isDelimiter c || c = '/'

theorem literal?_of_not_mayOpen {c : Char} (h : mayOpen c = false) (text : List Char) :
    literal? (c :: text) = none := by
  simp only [mayOpen, isDelimiter, Bool.or_eq_false_iff] at h
  simp [literal?, h]

theorem commentMark_of_not_mayOpen {c : Char} (h : mayOpen c = false) (text : List Char) :
    commentMark.isPrefixOf (c :: text) = false := by
  simp only [mayOpen, Bool.or_eq_false_iff, decide_eq_false_iff_not] at h
  simp [commentMark, List.isPrefixOf, Ne.symm h.2]

theorem not_mayOpen_of_isIdentifierChar {c : Char} (h : isIdentifierChar c) :
    mayOpen c = false := by
  rw [← Bool.not_eq_true]
  intro hopen
  simp only [mayOpen, isDelimiter, isQuote, isBacktick, Bool.or_eq_true, decide_eq_true_eq] at hopen
  rcases hopen with ((rfl | rfl) | rfl) | rfl <;> exact absurd h (by decide)

/-- Nothing opens anywhere in `block` when `after` comes after it. -/
inductive Calm (after : List Char) : List Char → Prop
  | nil : Calm after []
  | cons {x : Char} {block : List Char} (closed : literal? (x :: (block ++ after)) = none)
      (unmarked : commentMark.isPrefixOf (x :: (block ++ after)) = false)
        (tail : Calm after block) :
      Calm after (x :: block)

theorem calm_of_not_mayOpen (after : List Char) {block : List Char}
    (h : ∀ x ∈ block, mayOpen x = false) : Calm after block := by
  induction block with
  | nil => exact .nil
  | cons x block ih =>
    obtain ⟨hx, hblock⟩ := List.forall_mem_cons.mp h
    exact .cons (literal?_of_not_mayOpen hx _) (commentMark_of_not_mayOpen hx _) (ih hblock)

theorem calm_escapeList (after : List Char) {block : List Char}
    (h : ∀ x ∈ block, mayOpen x = false) :
    Calm after (escapeList block) := by
  refine calm_of_not_mayOpen after (fun x hx ↦ ?_)
  rw [escapeList_eq_flatMap] at hx
  obtain ⟨c, hc, hx⟩ := List.mem_flatMap.mp hx
  have hentity : ∀ x ∈ entityChars, mayOpen x = false := by
    simp [entityChars, mayOpen, isDelimiter, isQuote, isBacktick]
  exact forall_mem_escapeChar hentity (h c hc) x hx

theorem calm_escapeList_singleton {c : Char} {rest : List Char}
    (closed : literal? (c :: rest) = none) (mark : ¬ commentMark <+: c :: rest) :
    Calm (escapeList rest) (escapeList [c]) := by
  by_cases hc : isMarkup c
  · refine calm_escapeList _ (List.forall_mem_singleton.mpr ?_)
    rcases markup_cases hc with rfl | rfl | rfl <;> rfl
  · have hself : escapeList (c :: rest) = c :: escapeList rest :=
      escapeList_cons_of_not_markup (by simpa using hc) rest
    have hone : escapeList [c] = [c] := escapeList_eq_self (by simpa using hc)
    rw [hone]
    refine .cons ?_ ?_ .nil
    · rw [List.nil_append, ← hself, literal?_escapeList, closed]
      rfl
    · rw [List.nil_append, ← hself, Bool.eq_false_iff, ne_eq, List.isPrefixOf_iff_prefix,
        commentMark_prefix_escapeList]
      exact mark

theorem commentStart?_skip (position skip : Nat) (text : List Char) :
    commentStart? position skip text = commentStart? (position + skip) 0 (text.drop skip) := by
  induction text generalizing position skip with
  | nil => cases skip <;> simp [commentStart?]
  | cons c rest ih =>
    cases skip with
    | zero => rfl
    | succ skip =>
      rw [commentStart?, ih, List.drop_succ_cons]
      congr 1
      omega

theorem commentStart?_literal {text : List Char} {length : Nat} {category : Category}
    (h : literal? text = some (length, category)) (position : Nat) :
    commentStart? position 0 text = commentStart? (position + length) 0 (text.drop length) := by
  have hpos := (literal?_length h).1
  cases text with
  | nil => cases h
  | cons c rest =>
    obtain ⟨length, rfl⟩ : ∃ n, length = n + 1 := ⟨length - 1, by omega⟩
    rw [commentStart?, h]
    dsimp only
    rw [commentStart?_skip, Nat.add_sub_cancel, List.drop_succ_cons]
    congr 1
    omega

theorem commentStart?_calm {block after : List Char} (h : Calm after block) (position : Nat) :
    commentStart? position 0 (block ++ after) =
      commentStart? (position + block.length) 0 after := by
  induction h generalizing position with
  | nil => rfl
  | cons closed unmarked _ ih =>
    rw [List.cons_append, commentStart?, closed, unmarked, List.length_cons]
    refine (ih (position + 1)).trans ?_
    congr 1
    omega

theorem literalsFrom_skip (limit position skip : Nat) (text : List Char) :
    literalsFrom limit position skip text =
      literalsFrom limit (position + skip) 0 (text.drop skip) := by
  induction text generalizing position skip with
  | nil => cases skip <;> simp [literalsFrom]
  | cons c rest ih =>
    cases skip with
    | zero => rfl
    | succ skip =>
      rw [literalsFrom, ih, List.drop_succ_cons]
      congr 1
      omega

theorem literalsFrom_of_le {limit position : Nat} (h : limit ≤ position) (text : List Char) :
    literalsFrom limit position 0 text = [] := by
  cases text with
  | nil => rfl
  | cons c rest => rw [literalsFrom, if_pos h]

theorem literalsFrom_literal {text : List Char} {length : Nat} {category : Category}
    (h : literal? text = some (length, category)) {limit position : Nat}
    (hlimit : position < limit) :
    literalsFrom limit position 0 text =
      ⟨position, length, category⟩ :: literalsFrom limit (position + length) 0
        (text.drop length) := by
  have hpos := (literal?_length h).1
  cases text with
  | nil => cases h
  | cons c rest =>
    obtain ⟨length, rfl⟩ : ∃ n, length = n + 1 := ⟨length - 1, by omega⟩
    rw [literalsFrom, if_neg (Nat.not_le.mpr hlimit), h]
    dsimp only
    rw [literalsFrom_skip, Nat.add_sub_cancel, List.drop_succ_cons]
    congr 2
    omega

theorem literalsFrom_calm {block after : List Char} (h : Calm after block) (limit position : Nat) :
    literalsFrom limit position 0 (block ++ after) =
      literalsFrom limit (position + block.length) 0 after := by
  induction h generalizing position with
  | nil => rfl
  | @cons x block closed unmarked _ ih =>
    by_cases hlimit : limit ≤ position
    · rw [literalsFrom_of_le hlimit, literalsFrom_of_le (by omega)]
    · rw [List.cons_append, literalsFrom, if_neg hlimit, closed, List.length_cons]
      refine (ih (position + 1)).trans ?_
      congr 1
      omega

end Region

namespace Raw

open Region

theorem ofWord_not_region (closing : Bool) (w : Word) : (ofWord closing w).2.isRegion = false := by
  unfold ofWord
  split
  · rfl
  split
  · cases closing <;> rfl
  split
  · cases Rule.numberLength? w <;> rfl
  split
  · repeat' split
    all_goals rfl
  · rfl

theorem not_comment_of_not_region {c : Category} (h : c.isRegion = false) :
    decide (c = .comment) = false := by
  cases c <;> first | rfl | cases h

theorem not_literal_of_not_region {c : Category} (h : c.isRegion = false) :
    c.isLiteral = false := by
  cases c <;> first | rfl | cases h

theorem literal?_not_comment {text : List Char} {length : Nat} {category : Category}
    (h : literal? text = some (length, category)) : decide (category = .comment) = false := by
  have hliteral := literal?_isLiteral h
  cases category <;> first | rfl | cases hliteral

theorem literal?_not_plain {text : List Char} {length : Nat} {category : Category}
    (h : literal? text = some (length, category)) : category ≠ .plain := by
  rintro rfl
  cases literal?_isLiteral h

theorem literal?_escapeList_append {body rest : List Char} {category : Category}
    (h : literal? (body ++ rest) = some (body.length, category)) :
    literal? (escapeList body ++ escapeList rest) = some ((escapeList body).length, category) := by
  rw [← escapeList_append, literal?_escapeList, h, Option.map_some, List.take_left]
  rfl

theorem not_mayOpen_word {w : Word} (h : w.Maximal) : ∀ c ∈ w.chars, mayOpen c = false :=
  fun c hc ↦ not_mayOpen_of_isIdentifierChar (h.identifier c hc)

theorem not_mayOpen_fraction {w : Word} (h : w.Maximal) {digits : List Char}
    (hdigits : ∀ d ∈ digits, d.isDigit) : ∀ c ∈ w.chars ++ '.' :: digits, mayOpen c = false := by
  intro c hc
  rcases List.mem_append.mp hc with hc | hc
  · exact not_mayOpen_of_isIdentifierChar (h.identifier c hc)
  · rcases List.mem_cons.mp hc with rfl | hc
    · rfl
    · exact not_mayOpen_of_isIdentifierChar
        (by simp [isIdentifierChar, Char.isAlphanum, hdigits c hc])

/-- The pieces of a raw text as the walks over its markup come by them: all that is no region is
alike. -/
inductive Walked : List Char → List Piece → Prop
  | nil : Walked [] []
  | literal {body rest : List Char} {category : Category} {pieces : List Piece}
      (opens : literal? (body ++ rest) = some (body.length, category)) (tail : Walked rest pieces) :
      Walked (body ++ rest) (⟨category, body⟩ :: pieces)
  | comment {text : List Char} (closed : literal? text = none) (mark : commentMark <+: text) :
      Walked text [⟨.comment, text⟩]
  | code {body rest : List Char} {category : Category} {pieces : List Piece}
      (calm : Calm (escapeList rest) (escapeList body)) (plain : category.isRegion = false)
      (tail : Walked rest pieces) : Walked (body ++ rest) (⟨category, body⟩ :: pieces)

theorem Cuts.walked {previous : Option Char} {text : List Char} {pieces : List Piece}
    (h : Cuts previous text pieces) : Walked text pieces := by
  induction h with
  | nil => exact .nil
  | literal opens _ ih => exact .literal opens ih
  | comment closed mark => exact .comment closed mark
  | @word w category pieces maximal head _ ih =>
    have hregion := ofWord_not_region (closes w.after) w
    rw [head] at hregion
    exact .code (calm_escapeList _ (not_mayOpen_word maximal)) hregion ih
  | fraction maximal _ _ decimal _ _ _ ih =>
    rw [← List.cons_append, ← List.append_assoc]
    exact .code (calm_escapeList _ (not_mayOpen_fraction maximal decimal)) rfl ih
  | other closed mark _ _ ih => exact .code (calm_escapeList_singleton closed mark) rfl ih

theorem commentStart?_mark {text : List Char} (closed : literal? text = none)
    (mark : commentMark <+: text) (position : Nat) :
    commentStart? position 0 (escapeList text) = some position := by
  have hclosed : literal? (escapeList text) = none := by rw [literal?_escapeList, closed]; rfl
  have hmark := (commentMark_prefix_escapeList text).mpr mark
  cases hesc : escapeList text with
  | nil => simp [hesc, commentMark] at hmark
  | cons c rest =>
    rw [hesc] at hclosed hmark
    rw [commentStart?, hclosed]
    exact if_pos (List.isPrefixOf_iff_prefix.mpr hmark)

theorem Walked.filter_comment {text : List Char} {pieces : List Piece} (h : Walked text pieces)
    (position : Nat) :
    (claimsAt position pieces).filter (fun c ↦ c.category = .comment) =
      match commentStart? position 0 (escapeList text) with
      | none => []
      | some start => [⟨start, position + width text - start, .comment⟩] := by
  induction h generalizing position with
  | nil => rfl
  | literal opens _ ih =>
    have hcomment : decide (_ = Category.comment) = false := literal?_not_comment opens
    rw [filter_claimsAt_of_not (q := fun c ↦ c = .comment) _ _ hcomment, ih, escapeList_append,
      commentStart?_literal (literal?_escapeList_append opens), List.drop_left, width_append,
      Nat.add_assoc]
    rfl
  | comment closed mark =>
    rw [commentStart?_mark closed mark]
    simp [claimsAt]
  | code calm plain _ ih =>
    rw [filter_claimsAt_of_not (q := fun c ↦ c = .comment) _ _ (not_comment_of_not_region plain),
      ih, escapeList_append, commentStart?_calm calm, width_append, Nat.add_assoc]
    rfl

def codeEndAt (position : Nat) : List Piece → Nat
  | [] => position
  | piece :: later =>
    if piece.category = .comment then position else codeEndAt (position + width piece.chars) later

theorem le_codeEndAt (position : Nat) (pieces : List Piece) :
    position ≤ codeEndAt position pieces := by
  induction pieces generalizing position with
  | nil => exact Nat.le_refl _
  | cons piece later ih =>
    rw [codeEndAt]
    split
    · exact Nat.le_refl _
    · exact Nat.le_trans (Nat.le_add_right _ _) (ih _)

theorem Walked.codeEndAt {text : List Char} {pieces : List Piece} (h : Walked text pieces)
    (position : Nat) : Raw.codeEndAt position pieces =
      (commentStart? position 0 (escapeList text)).getD (position + width text) := by
  induction h generalizing position with
  | nil => rfl
  | literal opens _ ih =>
    have hcomment := of_decide_eq_false (literal?_not_comment opens)
    rw [Raw.codeEndAt, if_neg hcomment, ih, escapeList_append,
      commentStart?_literal (literal?_escapeList_append opens), List.drop_left, width_append,
      Nat.add_assoc]
    rfl
  | comment closed mark => rw [commentStart?_mark closed mark]; rfl
  | code calm plain _ ih =>
    have hcomment := of_decide_eq_false (not_comment_of_not_region plain)
    rw [Raw.codeEndAt, if_neg hcomment, ih, escapeList_append,
      commentStart?_calm calm, width_append, Nat.add_assoc]
    rfl

theorem Walked.literalsFrom {text : List Char} {pieces : List Piece} (h : Walked text pieces)
    {limit position : Nat} (hlimit : limit = Raw.codeEndAt position pieces) :
    Region.literalsFrom limit position 0 (escapeList text) =
      (claimsAt position pieces).filter (fun c ↦ c.category.isLiteral) := by
  induction h generalizing position with
  | nil => rfl
  | @literal body rest category pieces opens _ ih =>
    rw [Raw.codeEndAt, if_neg (of_decide_eq_false (literal?_not_comment opens))] at hlimit
    have hpos : 0 < width body := width_pos (List.length_pos_iff.mp (literal?_length opens).1)
    have hle : position + width body ≤ limit := hlimit ▸ le_codeEndAt _ pieces
    rw [filter_claimsAt_of _ _ (literal?_isLiteral opens) (literal?_not_plain opens),
      escapeList_append, literalsFrom_literal (literal?_escapeList_append opens) (by omega),
      List.drop_left, ← ih hlimit]
    rfl
  | comment closed mark =>
    have hle : limit ≤ position := Nat.le_of_eq hlimit
    rw [literalsFrom_of_le hle, filter_claimsAt_of_not _ _ (by rfl)]
    rfl
  | code calm plain _ ih =>
    rw [Raw.codeEndAt, if_neg (of_decide_eq_false (not_comment_of_not_region plain))] at hlimit
    rw [filter_claimsAt_of_not _ _ (not_literal_of_not_region plain), escapeList_append,
      literalsFrom_calm calm]
    exact ih hlimit

theorem codeEnd_escapeList (raw : List Char) :
    codeEnd (escapeList raw) = codeEndAt 0 (cut none raw) := by
  rw [(cuts_cut none raw).walked.codeEndAt, Nat.zero_add]
  rfl

theorem comment_escapeList (raw : List Char) :
    comment (escapeList raw) = (claimsAt 0 (cut none raw)).filter
      (fun c ↦ c.category = .comment) := by
  rw [(cuts_cut none raw).walked.filter_comment, comment, width]
  cases commentStart? 0 0 (escapeList raw) <;> simp

theorem literals_escapeList (raw : List Char) :
    literals (escapeList raw) = (claimsAt 0 (cut none raw)).filter (fun c ↦ c.category.isLiteral) :=
  (cuts_cut none raw).walked.literalsFrom (codeEnd_escapeList raw)

end Raw

end ScriptSpans
