import ScriptSpans.Proofs.Line.Pieces

namespace ScriptSpans

open Lexicon Markup Region

structure Stretch where
  category : Category
  start : Nat
  chars : List Char
deriving DecidableEq, Repr

/-- What the automaton is in the middle of: the region that began at `start`, of which it has read
`body`. -/
inductive Mode
  | code
  | template (start : Nat) (body : List Char)
  | string (quote : Char) (start : Nat) (body : List Char)
  | escape (quote : Char) (start : Nat) (body : List Char)

def regionsFrom (position : Nat) : Mode → List Char → List Stretch
  | .code, [] => []
  | .code, c :: rest =>
    if isBacktick c then regionsFrom (position + 1) (.template position [c]) rest
    else if isQuote c then regionsFrom (position + 1) (.string c position [c]) rest
    else if c = '/' ∧ rest.head? = some '/' then [⟨.comment, position, c :: rest⟩]
    else regionsFrom (position + 1) .code rest
  | .template start body, [] => [⟨.templateString, start, body⟩]
  | .template start body, c :: rest =>
    if isBacktick c then
      ⟨.templateString, start, body ++ [c]⟩ :: regionsFrom (position + 1) .code rest
    else regionsFrom (position + 1) (.template start (body ++ [c])) rest
  | .string _ start body, [] => [⟨.string, start, body⟩]
  | .string quote start body, c :: rest =>
    if isBackslash c then regionsFrom (position + 1) (.escape quote start (body ++ [c])) rest
    else if c = quote then ⟨.string, start, body ++ [c]⟩ :: regionsFrom (position + 1) .code rest
    else regionsFrom (position + 1) (.string quote start (body ++ [c])) rest
  | .escape _ start body, [] => [⟨.string, start, body⟩]
  | .escape quote start body, c :: rest =>
    regionsFrom (position + 1) (.string quote start (body ++ [c])) rest

/-- Spans with their places in the raw line, the first of which begins at `position`. -/
def Span.located (position : Nat) : List Span → List Stretch
  | [] => []
  | span :: later =>
    let chars := unescapeList span.text.toList
    ⟨span.category, position, chars⟩ :: located (position + chars.length) later

theorem regionsFrom_template (position start : Nat) (body text : List Char) :
    regionsFrom position (.template start body) text =
      ⟨.templateString, start, body ++ text.take (templateLength text)⟩ ::
        regionsFrom (position + templateLength text) .code (text.drop (templateLength text)) := by
  induction text generalizing position body with
  | nil => simp [regionsFrom, templateLength]
  | cons c rest ih =>
    rw [regionsFrom, templateLength]
    split
    · rw [List.take_succ_cons, List.take_zero, List.drop_succ_cons, List.drop_zero]
    · rw [ih, List.take_succ_cons, List.drop_succ_cons, List.append_assoc, List.singleton_append,
        Nat.add_assoc, Nat.add_comm 1]

theorem regionsFrom_string (quote : Char) (position start : Nat) (body text : List Char) :
    regionsFrom position (.string quote start body) text =
      ⟨.string, start, body ++ text.take (quotedLength quote text)⟩ ::
        regionsFrom (position + quotedLength quote text) .code
          (text.drop (quotedLength quote text)) := by
  fun_induction quotedLength quote text generalizing position body with
  | case1 => simp [regionsFrom]
  | case2 c hc => simp [regionsFrom, hc]
  | case3 c hc next rest ih =>
    have hplace :
        position + 1 + 1 + quotedLength quote rest = position + (quotedLength quote rest + 2) := by
      omega
    rw [regionsFrom, if_pos hc, regionsFrom, ih, List.take_succ_cons, List.take_succ_cons, hplace,
      List.append_assoc, List.append_assoc]
    rfl
  | case4 rest hslash => simp [regionsFrom, hslash]
  | case5 c rest hslash hne ih =>
    rw [regionsFrom, if_neg hslash, if_neg hne, ih, List.take_succ_cons, List.drop_succ_cons,
      List.append_assoc, List.singleton_append, Nat.add_assoc, Nat.add_comm 1]

theorem regionsFrom_literal {text : List Char} {length : Nat} {category : Category}
    (h : literal? text = some (length, category)) (position : Nat) :
    regionsFrom position .code text =
      ⟨category, position, text.take length⟩ :: regionsFrom (position + length) .code
        (text.drop length) := by
  cases text with
  | nil => cases h
  | cons c rest =>
    rw [literal?] at h
    rw [regionsFrom]
    split at h
    · rename_i hbacktick
      cases h
      rw [if_pos hbacktick, regionsFrom_template, Nat.add_assoc, Nat.add_comm 1]
      rfl
    · rename_i hbacktick
      split at h
      · rename_i hquote
        cases h
        rw [if_neg hbacktick, if_pos hquote, regionsFrom_string, Nat.add_assoc, Nat.add_comm 1]
        rfl
      · cases h

theorem commentMark_cons {c : Char} {rest : List Char} :
    commentMark <+: c :: rest ↔ c = '/' ∧ rest.head? = some '/' := by
  cases rest with
  | nil => simp [commentMark]
  | cons d more => simp [commentMark, List.cons_prefix_cons, eq_comm]

theorem regionsFrom_comment {text : List Char} (closed : literal? text = none)
    (mark : commentMark <+: text) (position : Nat) :
    regionsFrom position .code text = [⟨.comment, position, text⟩] := by
  cases text with
  | nil => simp [commentMark] at mark
  | cons c rest =>
    obtain ⟨hbacktick, hquote⟩ := not_literal_cons closed
    simp only [regionsFrom, hbacktick, hquote, Bool.false_eq_true, reduceIte,
      if_pos (commentMark_cons.mp mark)]

theorem regionsFrom_calm {block after : List Char} (h : Calm after block) (position : Nat) :
    regionsFrom position .code (block ++ after) =
      regionsFrom (position + block.length) .code after := by
  induction h generalizing position with
  | nil => rfl
  | @cons x block closed unmarked _ ih =>
    obtain ⟨hbacktick, hquote⟩ := not_literal_cons closed
    have hmark : ¬ (x = '/' ∧ (block ++ after).head? = some '/') := by
      rw [← commentMark_cons, ← List.isPrefixOf_iff_prefix]
      simp [unmarked]
    rw [List.cons_append, regionsFrom]
    simp only [hbacktick, hquote, Bool.false_eq_true, reduceIte, if_neg hmark]
    rw [ih, List.length_cons, Nat.add_assoc, Nat.add_comm 1]

namespace Raw

def regionsAt (position : Nat) : List Piece → List Stretch
  | [] => []
  | piece :: later =>
    if piece.category.isRegion then
      ⟨piece.category, position, piece.chars⟩ :: regionsAt (position + piece.chars.length) later
    else regionsAt (position + piece.chars.length) later

theorem Cuts.regionsAt {previous : Option Char} {text : List Char} {pieces : List Piece}
    (h : Cuts previous text pieces) (position : Nat) :
    Raw.regionsAt position pieces = regionsFrom position .code text := by
  induction h generalizing position with
  | nil => rfl
  | @literal previous body rest category pieces opens _ ih =>
    rw [Raw.regionsAt, if_pos (region_of_literal (literal?_isLiteral opens)), ih,
      regionsFrom_literal opens, List.take_left, List.drop_left]
  | comment closed mark => rw [regionsFrom_comment closed mark]; rfl
  | @word w category pieces maximal head _ ih =>
    have hregion := ofWord_not_region (closes w.after) w
    rw [head] at hregion
    have hcalm := calm_of_not_mayOpen w.after (not_mayOpen_word maximal)
    rw [regionsFrom_calm hcalm, ← ih, Raw.regionsAt, if_neg (by simp [hregion])]
  | @fraction w digits rest pieces maximal _ _ decimal _ _ _ ih =>
    have hcalm := calm_of_not_mayOpen rest (not_mayOpen_fraction maximal decimal)
    rw [← List.cons_append, ← List.append_assoc, regionsFrom_calm hcalm, ← ih]
    rfl
  | @other previous c rest pieces closed mark _ _ ih =>
    have hmark : commentMark.isPrefixOf (c :: rest) = false :=
      commentMark_isPrefixOf_eq_false.mpr mark
    have hcalm : Calm rest [c] := .cons closed hmark .nil
    have hrest := regionsFrom_calm hcalm position
    rw [List.singleton_append] at hrest
    rw [hrest, ← ih]
    rfl

theorem located_cons (position : Nat) (piece : Piece) (later : List Piece) :
    Span.located position ((piece :: later).map Piece.span) =
      ⟨piece.category, position, piece.chars⟩ ::
        Span.located (position + piece.chars.length) (later.map Piece.span) := by
  rw [List.map_cons, Span.located, Piece.span, String.toList_ofList, unescapeList_escapeList]

theorem filter_located_plainPiece {q : Category → Bool} (hq : q .plain = false) (position : Nat)
    (gap : List Char) (pieces : List Piece) :
    (Span.located position ((plainPiece gap ++ pieces).map Piece.span)).filter
      (fun s ↦ q s.category) =
      (Span.located (position + gap.length) (pieces.map Piece.span)).filter
        (fun s ↦ q s.category) := by
  cases gap with
  | nil => rfl
  | cons c rest =>
    have hplain : plainPiece (c :: rest) = [⟨.plain, c :: rest⟩] := rfl
    rw [hplain, List.singleton_append, located_cons, List.filter_cons_of_neg (by simp [hq])]

/-- Making one of plain neighbours moves no piece of another category. -/
theorem filter_located_joinFrom {q : Category → Bool} (hq : q .plain = false) (position : Nat)
    (gap : List Char) (pieces : List Piece) :
    (Span.located position ((joinFrom gap pieces).map Piece.span)).filter (fun s ↦ q s.category) =
      (Span.located (position + gap.length) (pieces.map Piece.span)).filter
        (fun s ↦ q s.category) := by
  induction pieces generalizing position gap with
  | nil =>
    have hgap := filter_located_plainPiece hq position gap []
    rwa [List.append_nil] at hgap
  | cons piece later ih =>
    rw [joinFrom, located_cons]
    split
    · rename_i hplain
      rw [ih, List.length_append, Nat.add_assoc, List.filter_cons_of_neg (by simp [hplain, hq])]
    · have hrest := ih (position + gap.length + piece.chars.length) []
      rw [List.length_nil, Nat.add_zero] at hrest
      rw [filter_located_plainPiece hq, located_cons, List.filter_cons, List.filter_cons, hrest]

theorem regionsAt_eq_filter (position : Nat) (pieces : List Piece) :
    Raw.regionsAt position pieces =
      (Span.located position (pieces.map Piece.span)).filter (fun s ↦ s.category.isRegion) := by
  induction pieces generalizing position with
  | nil => rfl
  | cons piece later ih => rw [located_cons, List.filter_cons, Raw.regionsAt, ih]

theorem located_joinFrom (position : Nat) (gap : List Char) (pieces : List Piece) :
    (Span.located position ((joinFrom gap pieces).map Piece.span)).filter
      (fun s ↦ s.category.isRegion) =
      Raw.regionsAt (position + gap.length) pieces := by
  rw [filter_located_joinFrom rfl, regionsAt_eq_filter]

theorem forall_mem_dropLast_cons {piece : Piece} {pieces : List Piece} {p : Piece → Prop}
    (hpiece : p piece) (h : ∀ q ∈ pieces.dropLast, p q) :
    ∀ q ∈ (piece :: pieces).dropLast, p q := by
  cases pieces with
  | nil => exact fun q hq ↦ absurd hq List.not_mem_nil
  | cons next later => exact List.forall_mem_cons.mpr ⟨hpiece, h⟩

theorem Cuts.not_comment {previous : Option Char} {text : List Char} {pieces : List Piece}
    (h : Cuts previous text pieces) : ∀ piece ∈ pieces.dropLast, piece.category ≠ .comment := by
  induction h with
  | nil => simp
  | literal opens _ ih =>
    exact forall_mem_dropLast_cons (of_decide_eq_false (literal?_not_comment opens)) ih
  | comment => simp
  | @word w category pieces _ head _ ih =>
    have hregion := ofWord_not_region (closes w.after) w
    rw [head] at hregion
    exact forall_mem_dropLast_cons (of_decide_eq_false (not_comment_of_not_region hregion)) ih
  | fraction _ _ _ _ _ _ _ ih => exact forall_mem_dropLast_cons (by simp) ih
  | other _ _ _ _ ih => exact forall_mem_dropLast_cons (by simp) ih

theorem joinFrom_not_comment (gap : List Char) {pieces : List Piece}
    (h : ∀ piece ∈ pieces.dropLast, piece.category ≠ .comment) :
    ∀ piece ∈ (joinFrom gap pieces).dropLast, piece.category ≠ .comment := by
  have hgap :
      ∀ (gap : List Char) (pieces : List Piece),
      (∀ piece ∈ pieces.dropLast, piece.category ≠ .comment) →
      ∀ piece ∈ (plainPiece gap ++ pieces).dropLast, piece.category ≠ .comment := by
    intro gap pieces hpieces
    cases gap with
    | nil => exact hpieces
    | cons c rest => exact forall_mem_dropLast_cons (by simp) hpieces
  induction pieces generalizing gap with
  | nil =>
    have hnil := hgap gap [] (by simp)
    rwa [List.append_nil] at hnil
  | cons piece later ih =>
    cases later with
    | nil =>
      rw [joinFrom]
      split
      · exact ih _ (by simp)
      · exact hgap gap _ (by simp [joinFrom, plainPiece])
    | cons next later =>
      rw [List.dropLast_cons_cons] at h
      obtain ⟨hpiece, hlater⟩ := List.forall_mem_cons.mp h
      rw [joinFrom]
      split
      · exact ih _ hlater
      · exact hgap gap _ (forall_mem_dropLast_cons hpiece (ih [] hlater))

end Raw

/-- The comment and the literals of a line within the limit are the regions that the automaton
finds. -/
theorem Line.ofSource_regions (config : Config) (raw : String) (lineno : Int)
    (hlimit : ∀ limit ∈ config.maxLineLength, raw.length ≤ limit) :
    (Span.located 0 (Line.ofSource config raw lineno).value.spans).filter
      (fun s ↦ s.category.isRegion) =
        regionsFrom 0 .code raw.toList ∧
      ∀ span ∈ (Line.ofSource config raw lineno).value.spans.dropLast,
        span.category ≠ .comment := by
  have hpieces : Raw.piecesOf config raw.toList = Raw.joinFrom [] (Raw.cut none raw.toList) := by
    rw [Raw.piecesOf]
    cases hmax : config.maxLineLength with
    | none => rfl
    | some limit =>
      have hle := hlimit limit hmax
      rw [← String.length_toList] at hle
      exact if_neg (Nat.not_lt.mpr hle)
  have hcuts := Raw.cuts_cut none raw.toList
  rw [Line.ofSource_value, hpieces]
  refine ⟨?_, ?_⟩
  · rw [Raw.located_joinFrom, hcuts.regionsAt]
    rfl
  · rw [← List.map_dropLast]
    intro span hspan
    obtain ⟨piece, hpiece, rfl⟩ := List.mem_map.mp hspan
    exact Raw.joinFrom_not_comment [] hcuts.not_comment piece hpiece

theorem Line.ofSource_regions_delimiters :
    let raw := "f('\\'&', \"//\"\x60<\x60) // '"
    (∀ limit ∈ (some 80 : Option Nat), raw.length ≤ limit) ∧
      (Span.located 0 (Line.ofSource { maxLineLength := some 80 } raw 1).value.spans).filter
          (fun s ↦ s.category.isRegion) =
        [⟨.string, 2, ['\'', '\\', '\'', '&', '\'']⟩, ⟨.string, 9, ['\"', '/', '/', '\"']⟩,
          ⟨.templateString, 13, ['\x60', '<', '\x60']⟩, ⟨.comment, 18, ['/', '/', ' ', '\'']⟩] := by
  have hlimit :
      ∀ limit ∈ (some 80 : Option Nat), "f('\\'&', \"//\"\x60<\x60) // '".length ≤ limit := by
    intro limit h
    cases h
    decide
  exact ⟨hlimit, (Line.ofSource_regions { maxLineLength := some 80 } _ 1 hlimit).1.trans
    (by decide)⟩

end ScriptSpans
