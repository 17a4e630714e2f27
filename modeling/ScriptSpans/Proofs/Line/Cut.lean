import ScriptSpans.Region
import ScriptSpans.Rule

namespace ScriptSpans

open Lexicon

theorem Region.commentMark_isPrefixOf_eq_false {text : List Char} :
    commentMark.isPrefixOf text = false ↔ ¬ commentMark <+: text := by
  rw [Bool.eq_false_iff, ne_eq, List.isPrefixOf_iff_prefix]

structure Word.Maximal (w : Word) : Prop where
  nonempty : w.chars ≠ []
  identifier : ∀ c ∈ w.chars, isIdentifierChar c
  stop : w.after.head?.any isIdentifierChar = false

namespace Raw

structure Piece where
  category : Category
  chars : List Char

/-- Whether a text comes to a closing bracket before any opening bracket, literal or comment. -/
def closes : List Char → Bool
  | [] => false
  | c :: rest =>
    if isDelimiter c || c = '<' || Region.commentMark.isPrefixOf (c :: rest) then false
    else if c = '>' then true
    else closes rest

/-- Length and category of the piece that begins with a word, given whether a bracket closes after
it. A number may be longer than its word. -/
def ofWord (closing : Bool) (w : Word) : Nat × Category :=
  if isKeyword w.chars then (w.length, .keyword)
  else if w.firstIs Char.isUpper then (w.length, if closing then .plain else .typeName)
  else if w.firstIs Char.isDigit then
    match Rule.numberLength? w with
    | none => (w.length, .plain)
    | some length => (length, .number)
  else if w.firstIs startsName then
    (w.length,
      if Rule.follower? w = some '(' then .functionCall
      else if Rule.follower? w = some ':' then .propertyKey
      else .plain)
  else (w.length, .plain)

def wordAt (previous : Option Char) (c : Char) (rest : List Char) : Word :=
  ⟨0, previous, c :: rest.takeWhile isIdentifierChar, rest.dropWhile isIdentifierChar⟩

def headOf (previous : Option Char) (c : Char) (rest : List Char) : Nat × Category :=
  match Region.literal? (c :: rest) with
  | some head => head
  | none =>
    if Region.commentMark.isPrefixOf (c :: rest) then (rest.length + 1, .comment)
    else if isIdentifierChar c then
      let w := wordAt previous c rest
      ofWord (closes w.after) w
    else (1, .plain)

def cut (previous : Option Char) : List Char → List Piece
  | [] => []
  | c :: rest =>
    let head := headOf previous c rest
    let body := c :: rest.take (head.1 - 1)
    ⟨head.2, body⟩ :: cut body.getLast? (rest.drop (head.1 - 1))
termination_by text => text.length

/-- How pieces come off a text of code after `previous`. A number with a fraction takes the word
after its point along; every other word is a piece by itself. -/
inductive Cuts : Option Char → List Char → List Piece → Prop
  | nil {previous : Option Char} : Cuts previous [] []
  | literal {previous : Option Char} {body rest : List Char} {category : Category}
      {pieces : List Piece} (opens : Region.literal? (body ++ rest) = some (body.length, category))
      (tail : Cuts body.getLast? rest pieces) :
        Cuts previous (body ++ rest) (⟨category, body⟩ :: pieces)
  | comment {previous : Option Char} {text : List Char} (closed : Region.literal? text = none)
      (mark : Region.commentMark <+: text) : Cuts previous text [⟨.comment, text⟩]
  | word {w : Word} {category : Category} {pieces : List Piece} (maximal : w.Maximal)
      (head : ofWord (closes w.after) w = (w.length, category))
      (tail : Cuts w.chars.getLast? w.after pieces) :
      Cuts w.previous (w.chars ++ w.after) (⟨category, w.chars⟩ :: pieces)
  | fraction {w : Word} {digits rest : List Char} {pieces : List Piece} (maximal : w.Maximal)
      (point : w.after = '.' :: (digits ++ rest)) (nonempty : digits ≠ [])
      (decimal : ∀ d ∈ digits, d.isDigit) (unguarded : rest.head?.any isGuard = false)
      (head : ofWord (closes w.after) w = (w.length + 1 + digits.length, .number))
      (tail : Cuts digits.getLast? rest pieces) :
      Cuts w.previous (w.chars ++ '.' :: (digits ++ rest))
        (⟨.number, w.chars ++ '.' :: digits⟩ :: pieces)
  | other {previous : Option Char} {c : Char} {rest : List Char} {pieces : List Piece}
      (closed : Region.literal? (c :: rest) = none) (mark : ¬ Region.commentMark <+: c :: rest)
      (apart : isIdentifierChar c = false) (tail : Cuts (some c) rest pieces) :
      Cuts previous (c :: rest) (⟨.plain, [c]⟩ :: pieces)

theorem wordAt_maximal (previous : Option Char) {c : Char} (hc : isIdentifierChar c)
    (rest : List Char) :
    (wordAt previous c rest).Maximal where
  nonempty := List.cons_ne_nil _ _
  identifier := by
    simp only [wordAt, List.mem_cons, forall_eq_or_imp]
    exact ⟨hc, fun x hx ↦ List.all_eq_true.mp List.all_takeWhile x hx⟩
  stop := by
    have h := List.head?_dropWhile_not isIdentifierChar rest
    simp only [wordAt]
    cases hd : (rest.dropWhile isIdentifierChar).head? with
    | none => rfl
    | some x => simpa [hd] using h

theorem takeWhile_eq_nil_of_head? {p : Char → Bool} {text : List Char}
    (h : text.head?.any p = false) :
    text.takeWhile p = [] := by
  cases text with
  | nil => rfl
  | cons c rest => exact List.takeWhile_cons_of_neg (by simpa using h)

theorem dropWhile_eq_self_of_head? {p : Char → Bool} {text : List Char}
    (h : text.head?.any p = false) :
    text.dropWhile p = text := by
  cases text with
  | nil => rfl
  | cons c rest => exact List.dropWhile_cons_of_neg (by simpa using h)

theorem takeWhile_append_of_head? {p : Char → Bool} {more : List Char}
    (h : more.head?.any p = false) (text : List Char) :
    (text ++ more).takeWhile p = text.takeWhile p := by
  rw [List.takeWhile_append]
  split
  · rename_i hall
    rw [takeWhile_eq_nil_of_head? h, List.append_nil, ((List.takeWhile_prefix p).eq_of_length hall)]
  · rfl

theorem dropWhile_append_of_head? {p : Char → Bool} {more : List Char}
    (h : more.head?.any p = false) (text : List Char) :
    (text ++ more).dropWhile p = text.dropWhile p ++ more := by
  rw [List.dropWhile_append]
  split
  · rename_i hall
    rw [dropWhile_eq_self_of_head? h, List.isEmpty_iff.mp hall, List.nil_append]
  · rfl

theorem take_length_takeWhile (p : Char → Bool) (text : List Char) :
    text.take (text.takeWhile p).length = text.takeWhile p :=
  (List.prefix_iff_eq_take.mp (List.takeWhile_prefix p)).symm

theorem drop_length_takeWhile (p : Char → Bool) (text : List Char) :
    text.drop (text.takeWhile p).length = text.dropWhile p := by
  have h : (text.takeWhile p ++ text.dropWhile p).drop (text.takeWhile p).length =
      text.dropWhile p :=
    List.drop_left
  rwa [List.takeWhile_append_dropWhile] at h

theorem isIdentifierChar_of_isDigitOrBreak {c : Char} (h : isDigitOrBreak c) :
    isIdentifierChar c := by
  simp only [isDigitOrBreak, Bool.or_eq_true, decide_eq_true_eq] at h
  rcases h with h | rfl
  · simp [isIdentifierChar, Char.isAlphanum, h]
  · rfl

theorem isGuard_of_isIdentifierChar {c : Char} (h : isIdentifierChar c) : isGuard c := by
  simp [isGuard, h]

theorem any_isIdentifierChar_of_isGuard {c : Option Char} (h : c.any isGuard = false) :
    c.any isIdentifierChar = false := by
  cases c with
  | none => rfl
  | some c =>
    rw [Option.any_some, isGuard, Bool.or_eq_false_iff] at h
    exact h.1

theorem numberLengths_append {run after : List Char} (hrun : ∀ c ∈ run, isDigitOrBreak c)
    (hafter : after.head?.any isDigitOrBreak = false) :
    Rule.numberLengths (run ++ after) = Rule.lengthsBefore run.length after := by
  have hwhole : (run ++ after).takeWhile isDigitOrBreak = run := by
    rw [List.takeWhile_append_of_pos hrun, takeWhile_eq_nil_of_head? hafter, List.append_nil]
  simp only [Rule.numberLengths, hwhole, List.drop_left]

theorem lengthsBefore_of_ne {whole : Nat} {after : List Char} (h : after.head? ≠ some '.') :
    Rule.lengthsBefore whole after = [whole] := by
  unfold Rule.lengthsBefore
  split
  · simp at h
  · rfl

theorem mem_lengthsBefore {whole length : Nat} {after : List Char}
    (h : length ∈ Rule.lengthsBefore whole after) :
    length = whole ∨ ∃ rest, after = '.' :: rest ∧ rest.takeWhile Char.isDigit ≠ [] ∧
      length = whole + 1 + (rest.takeWhile Char.isDigit).length := by
  by_cases hpoint : after.head? = some '.'
  · obtain ⟨rest, rfl⟩ := List.head?_eq_some_iff.mp hpoint
    rw [Rule.lengthsBefore] at h
    split at h
    · exact .inl (List.mem_singleton.mp h)
    · rename_i hdigits
      rcases List.mem_cons.mp h with hlength | hlength
      · exact .inr ⟨rest, rfl, fun hnil ↦ hdigits (by rw [hnil]; rfl), hlength⟩
      · exact .inl (List.mem_singleton.mp hlength)
  · rw [lengthsBefore_of_ne hpoint] at h
    exact .inl (List.mem_singleton.mp h)

/-- A number's word is all digits and underscores: any other identifier character guards it. -/
theorem isDigitOrBreak_of_numberLength? {w : Word} (hw : w.Maximal) {length : Nat}
    (h : Rule.numberLength? w = some length) : ∀ c ∈ w.chars, isDigitOrBreak c := by
  refine Classical.byContradiction fun hn ↦ ?_
  -- the digits end at another identifier character, and that one guards every number before it
  obtain ⟨run, x, post, hsplit, hrun, hx⟩ : ∃ run x post, w.chars = run ++ x :: post ∧
      (∀ c ∈ run, isDigitOrBreak c) ∧ isDigitOrBreak x = false := by
    refine ⟨w.chars.takeWhile isDigitOrBreak, ?_⟩
    have hrun : ∀ c ∈ w.chars.takeWhile isDigitOrBreak, isDigitOrBreak c :=
      fun c hc ↦ List.all_eq_true.mp List.all_takeWhile c hc
    cases hpost : w.chars.dropWhile isDigitOrBreak with
    | nil =>
      have hall : w.chars = w.chars.takeWhile isDigitOrBreak := by
        rw [← List.append_nil (List.takeWhile _ _), ← hpost, List.takeWhile_append_dropWhile]
      exact absurd (hall ▸ hrun) hn
    | cons x post =>
      refine ⟨x, post, ?_, hrun, ?_⟩
      · rw [← hpost, List.takeWhile_append_dropWhile]
      · simpa [hpost] using List.head?_dropWhile_not isDigitOrBreak w.chars
  have hguard : isGuard x := isGuard_of_isIdentifierChar (hw.identifier x (by simp [hsplit]))
  have hpoint : x ≠ '.' := by rintro rfl; exact absurd hguard (by decide)
  have htext : w.chars ++ w.after = run ++ (x :: (post ++ w.after)) := by simp [hsplit]
  have hlengths : Rule.numberLengths (w.chars ++ w.after) = [run.length] := by
    rw [htext, numberLengths_append hrun (by simpa using hx),
      lengthsBefore_of_ne (by simpa using hpoint)]
  rw [Rule.numberLength?] at h
  simp only [hlengths] at h
  rw [htext] at h
  simp [hguard] at h

theorem numberLength?_cases {w : Word} (hw : w.Maximal) {length : Nat}
    (h : Rule.numberLength? w = some length) :
    length = w.length ∨ ∃ digits rest, w.after = '.' :: (digits ++ rest) ∧ digits ≠ [] ∧
      (∀ d ∈ digits, d.isDigit) ∧ rest.head?.any isGuard = false ∧
      length = w.length + 1 + digits.length := by
  have hafter : w.after.head?.any isDigitOrBreak = false := by
    cases hc : w.after.head? with
    | none => rfl
    | some c =>
      have hstop := hw.stop
      rw [hc, Option.any_some] at hstop
      rw [Option.any_some, Bool.eq_false_iff]
      exact fun hd ↦ absurd (isIdentifierChar_of_isDigitOrBreak hd) (by simp [hstop])
  have hlengths := numberLengths_append (isDigitOrBreak_of_numberLength? hw h) hafter
  rw [Rule.numberLength?] at h
  split at h
  · simp only [hlengths] at h
    have hmem := List.mem_of_find?_eq_some h
    have hfree := List.find?_some h
    rcases mem_lengthsBefore hmem with hlength | ⟨rest, hrest, hdigits, hlength⟩
    · exact .inl hlength
    · refine .inr ⟨rest.takeWhile Char.isDigit, rest.dropWhile Char.isDigit, ?_, hdigits,
        ?_, ?_, hlength⟩
      · rw [hrest, List.takeWhile_append_dropWhile]
      · exact fun d hd ↦ List.all_eq_true.mp List.all_takeWhile d hd
      · have hdrop : (w.chars ++ w.after).drop length = rest.dropWhile Char.isDigit := by
          rw [hlength, hrest, Nat.add_assoc, ← List.drop_drop, List.drop_left, Nat.add_comm 1,
            List.drop_succ_cons, drop_length_takeWhile]
        rw [hdrop] at hfree
        simpa using hfree
  · cases h

theorem ofWord_cases {w : Word} (hw : w.Maximal) (closing : Bool) :
    (ofWord closing w).1 = w.length ∨ ∃ digits rest, w.after = '.' :: (digits ++ rest) ∧
      digits ≠ [] ∧
      (∀ d ∈ digits, d.isDigit) ∧ rest.head?.any isGuard = false ∧
      ofWord closing w = (w.length + 1 + digits.length, .number) := by
  unfold ofWord
  split
  · exact .inl rfl
  split
  · exact .inl rfl
  split
  · cases hn : Rule.numberLength? w with
    | none => exact .inl rfl
    | some length =>
      rcases numberLength?_cases hw hn with h | ⟨digits, rest, hafter, hne, hdigits, hguard, h⟩
      · exact .inl h
      · exact .inr ⟨digits, rest, hafter, hne, hdigits, hguard, by rw [h]⟩
  split
  · exact .inl rfl
  · exact .inl rfl

section headOf

variable {c : Char} {rest : List Char} (previous : Option Char)

theorem headOf_literal {head : Nat × Category} (h : Region.literal? (c :: rest) = some head) :
    headOf previous c rest = head := by
  rw [headOf, h]

variable (closed : Region.literal? (c :: rest) = none)
include closed

theorem headOf_mark (mark : Region.commentMark <+: c :: rest) :
    headOf previous c rest = (rest.length + 1, .comment) := by
  rw [headOf, closed]
  exact if_pos (List.isPrefixOf_iff_prefix.mpr mark)

theorem headOf_code (mark : ¬ Region.commentMark <+: c :: rest) :
    headOf previous c rest =
      if isIdentifierChar c then
        ofWord (closes (wordAt previous c rest).after) (wordAt previous c rest)
      else (1, .plain) := by
  rw [headOf, closed, Region.commentMark_isPrefixOf_eq_false.mpr mark]
  rfl

end headOf

theorem wordAt_append (previous : Option Char) (c : Char) (rest : List Char) :
    (wordAt previous c rest).chars ++ (wordAt previous c rest).after = c :: rest :=
  congrArg (c :: ·) List.takeWhile_append_dropWhile

theorem cut_of_head {previous : Option Char} {c : Char} {rest body after : List Char}
    {category : Category} (hsplit : c :: rest = body ++ after) (hbody : body ≠ [])
    (hhead : headOf previous c rest = (body.length, category)) :
    cut previous (c :: rest) = ⟨category, body⟩ :: cut body.getLast? after := by
  obtain ⟨x, body, rfl⟩ := List.exists_cons_of_ne_nil hbody
  obtain ⟨rfl, rfl⟩ : c = x ∧ rest = body ++ after := by simpa using hsplit
  rw [cut, hhead]
  simp

theorem cut_mark {text : List Char} (closed : Region.literal? text = none)
    (mark : Region.commentMark <+: text) (previous : Option Char) :
    cut previous text = [⟨.comment, text⟩] := by
  cases text with
  | nil => simp [Region.commentMark] at mark
  | cons c rest =>
    have hsplit : c :: rest = (c :: rest) ++ [] := (List.append_nil _).symm
    rw [cut_of_head hsplit (List.cons_ne_nil _ _) (headOf_mark previous closed mark), cut]

theorem getLast?_fraction (whole : List Char) {digits : List Char} (h : digits ≠ []) :
    (whole ++ '.' :: digits).getLast? = digits.getLast? := by
  rw [List.getLast?_append, List.getLast?_cons, List.getLast?_eq_some_getLast h]
  rfl

theorem cuts_word {previous : Option Char} {c : Char} {rest : List Char}
    (closed : Region.literal? (c :: rest) = none) (mark : ¬ Region.commentMark <+: c :: rest)
    (hc : isIdentifierChar c)
    (htail : ∀ body after, body ≠ [] → c :: rest = body ++ after →
      Cuts body.getLast? after (cut body.getLast? after)) :
    Cuts previous (c :: rest) (cut previous (c :: rest)) := by
  let w := wordAt previous c rest
  have hw : w.Maximal := wordAt_maximal previous hc rest
  have hsplit : c :: rest = w.chars ++ w.after := (wordAt_append previous c rest).symm
  have hhead : headOf previous c rest = ofWord (closes w.after) w :=
    (headOf_code previous closed mark).trans (if_pos hc)
  rcases ofWord_cases hw (closes w.after) with
    hlength | ⟨digits, after, hafter, hne, hdigits, hguard, hof⟩
  · rw [cut_of_head hsplit hw.nonempty (hhead.trans (Prod.ext hlength rfl))]
    have hcuts := Cuts.word hw (Prod.ext hlength rfl) (htail _ _ hw.nonempty hsplit)
    rwa [← hsplit] at hcuts
  · have hfraction : c :: rest = (w.chars ++ '.' :: digits) ++ after := by
      rw [hsplit, hafter, List.append_assoc, List.cons_append]
    have hbody : w.chars ++ '.' :: digits ≠ [] := by simp
    have hlast := getLast?_fraction w.chars hne
    have hlength : w.length + 1 + digits.length = (w.chars ++ '.' :: digits).length := by
      simp only [Word.length, List.length_append, List.length_cons]
      omega
    rw [cut_of_head hfraction hbody (by rw [hhead, hof, hlength]), hlast]
    have hcuts := Cuts.fraction hw hafter hne hdigits hguard hof (hlast ▸ htail _ _ hbody hfraction)
    rwa [← hafter, ← hsplit] at hcuts

theorem cuts_cons {previous : Option Char} {c : Char} {rest : List Char}
    (htail : ∀ body after, body ≠ [] → c :: rest = body ++ after →
      Cuts body.getLast? after (cut body.getLast? after)) :
    Cuts previous (c :: rest) (cut previous (c :: rest)) := by
  cases hliteral : Region.literal? (c :: rest) with
  | some head =>
    obtain ⟨length, category⟩ := head
    obtain ⟨hpos, hle⟩ := Region.literal?_length hliteral
    have hsplit := (List.take_append_drop length (c :: rest)).symm
    have hlength : ((c :: rest).take length).length = length := List.length_take_of_le hle
    have hbody : (c :: rest).take length ≠ [] := by
      rw [← List.length_pos_iff, hlength]
      exact hpos
    have hhead : headOf previous c rest = (((c :: rest).take length).length, category) := by
      rw [headOf_literal previous hliteral, hlength]
    rw [cut_of_head hsplit hbody hhead]
    have hcuts : Cuts previous _ _ :=
      .literal (by rw [← hsplit, hliteral, hlength]) (htail _ _ hbody hsplit)
    rwa [← hsplit] at hcuts
  | none =>
    by_cases hmark : Region.commentMark <+: c :: rest
    · rw [cut_mark hliteral hmark]
      exact .comment hliteral hmark
    by_cases hc : isIdentifierChar c
    · exact cuts_word hliteral hmark hc htail
    · have hsplit : c :: rest = [c] ++ rest := rfl
      have hhead : headOf previous c rest = ([c].length, .plain) :=
        (headOf_code previous hliteral hmark).trans (if_neg hc)
      rw [cut_of_head hsplit (List.cons_ne_nil _ _) hhead]
      exact .other hliteral hmark (by simpa using hc)
        (htail [c] rest (List.cons_ne_nil _ _) rfl)

theorem cuts_cut (previous : Option Char) (text : List Char) :
    Cuts previous text (cut previous text) := by
  induction hn : text.length using Nat.strongRecOn generalizing previous text with
  | ind n ih =>
    subst hn
    cases text with
    | nil => rw [cut]; exact .nil
    | cons c rest =>
      refine cuts_cons (fun body after hbody hsplit ↦ ih _ ?_ _ _ rfl)
      have hpos := List.length_pos_iff.mpr hbody
      have hlen := congrArg List.length hsplit
      rw [List.length_append] at hlen
      omega

namespace Cuts

variable {previous : Option Char} {text : List Char} {pieces : List Piece}

theorem chars_ne_nil (h : Cuts previous text pieces) : ∀ piece ∈ pieces, piece.chars ≠ [] := by
  induction h with
  | nil => simp
  | literal opens _ ih =>
    have hpos := (Region.literal?_length opens).1
    exact List.forall_mem_cons.mpr ⟨List.length_pos_iff.mp hpos, ih⟩
  | comment _ mark => simpa using fun h ↦ by simp [h, Region.commentMark] at mark
  | word maximal _ _ ih => exact List.forall_mem_cons.mpr ⟨maximal.nonempty, ih⟩
  | fraction _ _ _ _ _ _ _ ih => exact List.forall_mem_cons.mpr ⟨by simp, ih⟩
  | other _ _ _ _ ih => exact List.forall_mem_cons.mpr ⟨List.cons_ne_nil _ _, ih⟩

theorem flatMap_chars (h : Cuts previous text pieces) : pieces.flatMap Piece.chars = text := by
  induction h with
  | nil => rfl
  | comment => simp
  | literal _ _ ih | word _ _ _ ih | fraction _ _ _ _ _ _ _ ih | other _ _ _ _ ih =>
    simp [List.flatMap_cons, ih]

end Cuts

end Raw

end ScriptSpans
