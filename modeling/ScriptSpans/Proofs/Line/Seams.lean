import ScriptSpans.Proofs.Line.Automaton

namespace ScriptSpans

open Lexicon Region

/-- Where a scan of raw characters stands; in a string, perhaps just after a backslash. -/
inductive Place
  | code
  | template
  | string (quote : Char)
  | escape (quote : Char)
  | comment
deriving DecidableEq, Repr

namespace Place

def after : Place → List Char → Place
  | place, [] => place
  | code, c :: rest =>
    if isBacktick c then after template rest
    else if isQuote c then after (string c) rest
    else if c = '/' ∧ rest.head? = some '/' then comment
    else after code rest
  | template, c :: rest => if isBacktick c then after code rest else after template rest
  | string quote, c :: rest =>
    if isBackslash c then after (escape quote) rest
    else if c = quote then after code rest
    else after (string quote) rest
  | escape quote, _ :: rest => after (string quote) rest
  | comment, _ :: _ => comment

theorem after_template {text : List Char} (h : after template text = code) :
    after code (text.drop (templateLength text)) = code ∧
      ∀ more, templateLength (text ++ more) = templateLength text := by
  induction text with
  | nil => cases h
  | cons c rest ih =>
    rw [after] at h
    by_cases hc : isBacktick c
    · have hends : ∀ rest, templateLength (c :: rest) = 1 :=
        fun _ ↦ by rw [templateLength, if_pos hc]
      rw [if_pos hc] at h
      rw [hends]
      exact ⟨h, fun more ↦ hends (rest ++ more)⟩
    · have hgoes : ∀ rest, templateLength (c :: rest) = templateLength rest + 1 :=
        fun _ ↦ by rw [templateLength, if_neg hc]
      rw [if_neg hc] at h
      obtain ⟨hrest, hlength⟩ := ih h
      rw [hgoes, List.drop_succ_cons]
      refine ⟨hrest, fun more ↦ ?_⟩
      rw [List.cons_append, hgoes, hlength]

theorem after_string {quote : Char} {text : List Char} (h : after (string quote) text = code) :
    after code (text.drop (quotedLength quote text)) = code ∧
      ∀ more, quotedLength quote (text ++ more) = quotedLength quote text := by
  fun_induction quotedLength quote text with
  | case1 => cases h
  | case2 c hc =>
    rw [after, if_pos hc] at h
    cases h
  | case3 c hc next rest ih =>
    rw [after, if_pos hc, after] at h
    obtain ⟨hrest, hlength⟩ := ih h
    refine ⟨hrest, fun more ↦ ?_⟩
    rw [List.cons_append, List.cons_append, quotedLength_backslash hc, hlength]
  | case4 rest hslash =>
    rw [after, if_neg hslash, if_pos rfl] at h
    refine ⟨h, fun more ↦ ?_⟩
    rw [List.cons_append, quotedLength_cons (by simpa using hslash), if_pos rfl]
  | case5 c rest hslash hne ih =>
    rw [after, if_neg hslash, if_neg hne] at h
    obtain ⟨hrest, hlength⟩ := ih h
    refine ⟨hrest, fun more ↦ ?_⟩
    rw [List.cons_append, quotedLength_cons (by simpa using hslash), if_neg hne, hlength]

theorem after_literal {text : List Char} (h : after code text = code) {length : Nat}
    {category : Category} (hliteral : literal? text = some (length, category)) :
    after code (text.drop length) = code ∧
      ∀ more, literal? (text ++ more) = some (length, category) := by
  cases text with
  | nil => cases hliteral
  | cons c rest =>
    rw [literal?] at hliteral
    rw [after] at h
    by_cases hbacktick : isBacktick c
    · rw [if_pos hbacktick] at h hliteral
      cases hliteral
      obtain ⟨hrest, hlength⟩ := after_template h
      refine ⟨hrest, fun more ↦ ?_⟩
      rw [List.cons_append, literal?, if_pos hbacktick, hlength]
    · rw [if_neg hbacktick] at h hliteral
      by_cases hquote : isQuote c
      · rw [if_pos hquote] at h hliteral
        cases hliteral
        obtain ⟨hrest, hlength⟩ := after_string h
        refine ⟨hrest, fun more ↦ ?_⟩
        rw [List.cons_append, literal?, if_neg hbacktick, if_pos hquote, hlength]
      · rw [if_neg hquote] at hliteral
        cases hliteral

theorem after_other {c : Char} {rest : List Char} (h : after code (c :: rest) = code)
    (closed : literal? (c :: rest) = none) :
    after code rest = code ∧ ¬ (c = '/' ∧ rest.head? = some '/') := by
  obtain ⟨hbacktick, hquote⟩ := not_literal_cons closed
  rw [after, hbacktick, hquote] at h
  simp only [Bool.false_eq_true, reduceIte] at h
  split at h
  · cases h
  · exact ⟨h, ‹_›⟩

theorem after_calm {block : List Char} (h : ∀ x ∈ block, mayOpen x = false) (text : List Char) :
    after code (block ++ text) = after code text := by
  induction block with
  | nil => rfl
  | cons x block ih =>
    obtain ⟨hx, hblock⟩ := List.forall_mem_cons.mp h
    simp only [mayOpen, isDelimiter, Bool.or_eq_false_iff, decide_eq_false_iff_not] at hx
    simp only [List.cons_append, after, hx, Bool.false_eq_true, false_and, reduceIte, ih hblock]

end Place

/-- What code does not see into: the end of the line, a literal, or the comment. -/
inductive Border : List Char → Prop
  | stop : Border []
  | literal {c : Char} {rest : List Char} (opens : isDelimiter c) : Border (c :: rest)
  | comment {rest : List Char} : Border ('/' :: '/' :: rest)

namespace Border

variable {text : List Char} (h : Border text)
include h

theorem closes_eq_false : Raw.closes text = false := by
  cases h with
  | stop => rfl
  | literal opens => simp [Raw.closes, opens]
  | comment => rfl

theorem any_head? {p : Char → Bool} (hp : ∀ c, mayOpen c → p c = false) :
    text.head?.any p = false := by
  cases h with
  | stop => rfl
  | literal opens => exact hp _ (by simp [mayOpen, opens])
  | comment => exact hp '/' rfl

theorem head?_ne {c : Char} (hc : mayOpen c = false) : text.head? ≠ some c := by
  intro hhead
  have hany := h.any_head? (p := (· == c)) (fun x hx ↦ by
    rw [beq_eq_false_iff_ne]
    exact fun hxc ↦ absurd hx (by simp [hxc, hc]))
  simp [hhead] at hany

end Border

/-- Where `text`, whose scan ends in code, may be followed by `more`: at a border, and not between
the slashes of a comment. A number before it is guarded or not. -/
structure Seam (guarded : Bool) (text more : List Char) : Prop where
  border : Border more
  guard : more.head?.any isGuard = guarded
  apart : ¬ (text.getLast? = some '/' ∧ more.head? = some '/')

theorem Seam.drop {guarded : Bool} {text more : List Char} (h : Seam guarded text more)
    (count : Nat) :
    Seam guarded (text.drop count) more where
  border := h.border
  guard := h.guard
  apart := by
    rintro ⟨hlast, hhead⟩
    refine h.apart ⟨?_, hhead⟩
    rw [List.getLast?_drop] at hlast
    split at hlast
    · cases hlast
    · exact hlast

namespace Raw

theorem not_isIdentifierChar_of_mayOpen {c : Char} (h : mayOpen c) :
    isIdentifierChar c = false := by
  rw [Bool.eq_false_iff]
  exact fun hc ↦ absurd h (by simp [not_mayOpen_of_isIdentifierChar hc])

theorem not_isDigitOrBreak_of_mayOpen {c : Char} (h : mayOpen c) : isDigitOrBreak c = false := by
  rw [Bool.eq_false_iff]
  exact fun hc ↦ absurd (isIdentifierChar_of_isDigitOrBreak hc)
    (by simp [not_isIdentifierChar_of_mayOpen h])

theorem closes_append {more : List Char} (h : closes more = false) (text : List Char) :
    closes (text ++ more) = closes text := by
  induction text with
  | nil => exact h
  | cons c rest ih =>
    rw [List.cons_append]
    by_cases hmark : commentMark <+: c :: rest
    · rw [closes_mark hmark]
      exact closes_mark (hmark.trans (List.prefix_append (c :: rest) more))
    by_cases hlong : commentMark <+: c :: (rest ++ more)
    · -- a lone slash ends the text, and neither closes anything
      obtain ⟨rfl, hhead⟩ := commentMark_cons.mp hlong
      cases rest with
      | nil => rw [closes_mark hlong]; rfl
      | cons d rest =>
        have hshort : commentMark <+: '/' :: d :: rest := commentMark_cons.mpr ⟨rfl, hhead⟩
        exact absurd hshort hmark
    · rw [closes, closes, commentMark_isPrefixOf_eq_false.mpr hmark,
        commentMark_isPrefixOf_eq_false.mpr hlong, ih]

theorem lengthsBefore_append {more : List Char} (h : Border more) (whole : Nat) (text : List Char) :
    Rule.lengthsBefore whole (text ++ more) = Rule.lengthsBefore whole text := by
  cases text with
  | nil =>
    rw [List.nil_append, lengthsBefore_of_ne (h.head?_ne rfl)]
    rfl
  | cons c rest =>
    by_cases hpoint : c = '.'
    · rw [hpoint, List.cons_append, Rule.lengthsBefore, Rule.lengthsBefore,
        takeWhile_append_of_head?]
      exact h.any_head? (fun c hc ↦ by
        rw [Bool.eq_false_iff]
        exact fun hdigit ↦ absurd (not_isDigitOrBreak_of_mayOpen hc)
          (by simp [isDigitOrBreak, hdigit]))
    · rw [lengthsBefore_of_ne (by simpa using hpoint), lengthsBefore_of_ne (by simpa using hpoint)]

theorem numberLengths_append_border {more : List Char} (h : Border more) (text : List Char) :
    Rule.numberLengths (text ++ more) = Rule.numberLengths text := by
  have hstop : more.head?.any isDigitOrBreak = false :=
    h.any_head? (fun _ ↦ not_isDigitOrBreak_of_mayOpen)
  simp only [Rule.numberLengths, drop_length_takeWhile]
  rw [takeWhile_append_of_head? hstop, dropWhile_append_of_head? hstop, lengthsBefore_append h]

theorem le_of_mem_numberLengths {text : List Char} {length : Nat}
    (h : length ∈ Rule.numberLengths text) :
    length ≤ text.length := by
  have hsplit :=
    congrArg List.length (List.takeWhile_append_dropWhile (p := isDigitOrBreak) (l := text))
  rw [List.length_append] at hsplit
  simp only [Rule.numberLengths, drop_length_takeWhile] at h
  rcases mem_lengthsBefore h with hlength | ⟨rest, hrest, -, hlength⟩
  · omega
  · have hfraction := (List.takeWhile_prefix (p := Char.isDigit) (l := rest)).length_le
    rw [hrest, List.length_cons] at hsplit
    omega

theorem not_isInlineBlank_of_mayOpen {c : Char} (h : mayOpen c) : isInlineBlank c = false := by
  simp only [mayOpen, isDelimiter, isQuote, isBacktick, Bool.or_eq_true, decide_eq_true_eq] at h
  rcases h with ((rfl | rfl) | rfl) | rfl <;> rfl

theorem head?_dropWhile_append {more : List Char} (h : Border more) (text : List Char) {c : Char}
    (hc : mayOpen c = false) :
    ((text ++ more).dropWhile isInlineBlank).head? = some c ↔
      (text.dropWhile isInlineBlank).head? = some c := by
  have hblank : more.head?.any isInlineBlank = false :=
    h.any_head? (fun _ ↦ not_isInlineBlank_of_mayOpen)
  rw [dropWhile_append_of_head? hblank, List.head?_append, Option.or_eq_some_iff]
  exact or_iff_left (fun hmore ↦ h.head?_ne hc hmore.2)

section word

variable {guarded : Bool} {text one other middle : List Char} (hone : Seam guarded text one)
  (hother : Seam guarded text other) {v w : Word} (hprevious : v.previous = w.previous)
    (hchars : v.chars = w.chars)
  (hv : v.after = middle ++ one) (hw : w.after = middle ++ other)
include hone hother hprevious hchars hv hw

theorem numberLength?_seam : Rule.numberLength? v = Rule.numberLength? w := by
  have hvtext : v.chars ++ v.after = (w.chars ++ middle) ++ one := by
    rw [hchars, hv, List.append_assoc]
  have hwtext : w.chars ++ w.after = (w.chars ++ middle) ++ other := by rw [hw, List.append_assoc]
  refine numberLength?_congr hchars (by rw [hprevious]) ?_ ?_
  · rw [hvtext, hwtext, numberLengths_append_border hone.border,
      numberLengths_append_border hother.border]
  · intro length hlength
    rw [hwtext, numberLengths_append_border hother.border] at hlength
    have hle := le_of_mem_numberLengths hlength
    -- a number that ends before the seam sees the text, and one that ends at it only the guard
    rw [hvtext, hwtext, List.drop_append_of_le_length hle, List.drop_append_of_le_length hle,
      List.head?_append, List.head?_append]
    cases ((w.chars ++ middle).drop length).head? with
    | none => exact hone.guard.trans hother.guard.symm
    | some c => rfl

theorem ofWord_seam : ofWord (closes v.after) v = ofWord (closes w.after) w := by
  have hcloses : closes v.after = closes w.after := by
    rw [hv, hw, closes_append hone.border.closes_eq_false,
      closes_append hother.border.closes_eq_false]
  rw [hcloses]
  refine ofWord_congr hchars (numberLength?_seam hone hother hprevious hchars hv hw) ?_ _
  intro c hc
  have hopen : mayOpen c = false := by rcases hc with rfl | rfl <;> rfl
  rw [Rule.follower?, Rule.follower?, hv, hw, head?_dropWhile_append hone.border middle hopen,
    head?_dropWhile_append hother.border middle hopen]

end word

theorem literal?_cons_eq_none {c : Char} {rest : List Char} (h : literal? (c :: rest) = none)
    (other : List Char) : literal? (c :: other) = none := by
  obtain ⟨hbacktick, hquote⟩ := not_literal_cons h
  rw [literal?, hbacktick, hquote]
  rfl

theorem ofWord_body {w : Word} (hw : w.Maximal) (closing : Bool) :
    ∃ body after, w.chars ++ w.after = body ++ after ∧ body ≠ [] ∧ (∀ x ∈ body, mayOpen x = false) ∧
      (ofWord closing w).1 = body.length := by
  rcases ofWord_cases hw closing with hlength | ⟨digits, after, hafter, -, hdigits, -, hof⟩
  · exact ⟨w.chars, w.after, rfl, hw.nonempty, not_mayOpen_word hw, hlength⟩
  · refine ⟨w.chars ++ '.' :: digits, after, by simp [hafter], by simp,
      not_mayOpen_fraction hw hdigits, ?_⟩
    rw [hof, Word.length, List.length_append, List.length_cons]
    omega

theorem exists_eq_append_of_border {text more block after : List Char} (h : Border more)
    (hblock : ∀ x ∈ block, mayOpen x = false) (hsplit : text ++ more = block ++ after) :
    ∃ left, text = block ++ left := by
  rcases List.append_eq_append_iff.mp hsplit with ⟨beyond, hbeyond, hmore⟩ | ⟨left, hleft, -⟩
  · cases beyond with
    | nil => exact ⟨[], by rw [hbeyond, List.append_nil, List.append_nil]⟩
    | cons x beyond =>
      have hhead : more.head? = some x := by rw [hmore]; rfl
      exact absurd hhead (h.head?_ne (hblock x (by simp [hbeyond])))
  · exact ⟨left, hleft⟩

section cut

variable {guarded : Bool} {one other : List Char}

theorem not_mark_of_seam {c : Char} {rest : List Char} (h : Seam guarded (c :: rest) one)
    (hmark : ¬ (c = '/' ∧ rest.head? = some '/')) : ¬ commentMark <+: c :: (rest ++ one) := by
  rw [commentMark_cons]
  rintro ⟨rfl, hhead⟩
  cases rest with
  | nil => exact h.apart ⟨rfl, hhead⟩
  | cons d rest => exact hmark ⟨rfl, hhead⟩

theorem ofWord_wordAt_seam (previous : Option Char) {c : Char} {rest : List Char}
    (hone : Seam guarded (c :: rest) one) (hother : Seam guarded (c :: rest) other) :
    ofWord (closes (wordAt previous c (rest ++ one)).after) (wordAt previous c (rest ++ one)) =
      ofWord (closes (wordAt previous c (rest ++ other)).after)
        (wordAt previous c (rest ++ other)) := by
  have hidentifier : ∀ {more}, Seam guarded (c :: rest) more →
      more.head?.any isIdentifierChar = false :=
    fun h ↦ h.border.any_head? (fun _ ↦ not_isIdentifierChar_of_mayOpen)
  have hchars :
      (wordAt previous c (rest ++ one)).chars = (wordAt previous c (rest ++ other)).chars := by
    simp only [wordAt, takeWhile_append_of_head? (hidentifier hone),
      takeWhile_append_of_head? (hidentifier hother)]
  exact ofWord_seam hone hother rfl hchars (dropWhile_append_of_head? (hidentifier hone) rest)
    (dropWhile_append_of_head? (hidentifier hother) rest)

/-- The piece that comes off code before a seam is the same with either text behind the seam, and
code goes on after it. -/
theorem headOf_seam (previous : Option Char) {c : Char} {rest : List Char}
    (hcode : Place.code.after (c :: rest) = .code) (hone : Seam guarded (c :: rest) one)
    (hother : Seam guarded (c :: rest) other) :
    ∃ body after category, c :: rest = body ++ after ∧ body ≠ [] ∧ Place.code.after after = .code ∧
      headOf previous c (rest ++ one) = (body.length, category) ∧
      headOf previous c (rest ++ other) = (body.length, category) := by
  cases hliteral : literal? (c :: rest) with
  | some head =>
    obtain ⟨length, category⟩ := head
    obtain ⟨hafter, hmore⟩ := Place.after_literal hcode hliteral
    obtain ⟨hpos, hle⟩ := literal?_length hliteral
    have hlength : ((c :: rest).take length).length = length := List.length_take_of_le hle
    have hhead : ∀ more, headOf previous c (rest ++ more) = (length, category) :=
      fun more ↦ headOf_literal previous (hmore more)
    refine ⟨(c :: rest).take length, (c :: rest).drop length, category,
      (List.take_append_drop length (c :: rest)).symm, ?_, hafter, ?_, ?_⟩
    · rw [← List.length_pos_iff, hlength]
      exact hpos
    · rw [hlength, hhead]
    · rw [hlength, hhead]
  | none =>
    obtain ⟨hafter, hmark⟩ := Place.after_other hcode hliteral
    have hheads : ∀ {more}, Seam guarded (c :: rest) more → headOf previous c (rest ++ more) = _ :=
      fun h ↦ headOf_code previous (literal?_cons_eq_none hliteral _) (not_mark_of_seam h hmark)
    rw [hheads hone, hheads hother, ofWord_wordAt_seam previous hone hother]
    by_cases hc : isIdentifierChar c
    · let w := wordAt previous c (rest ++ other)
      obtain ⟨body, after, hsplit, hne, hcalm, hlength⟩ :=
        ofWord_body (wordAt_maximal previous hc (rest ++ other)) (closes w.after)
      rw [wordAt_append, ← List.cons_append] at hsplit
      obtain ⟨left, hleft⟩ := exists_eq_append_of_border hother.border hcalm hsplit
      rw [hleft, Place.after_calm hcalm] at hcode
      rw [if_pos hc]
      exact ⟨body, left, (ofWord (closes w.after) w).2, hleft, hne, hcode, Prod.ext hlength rfl,
        Prod.ext hlength rfl⟩
    · rw [if_neg hc]
      exact ⟨[c], rest, .plain, rfl, List.cons_ne_nil _ _, hafter, rfl, rfl⟩

/-- Code before a seam is cut in one way, whatever comes after. -/
theorem cut_seam (previous : Option Char) {text : List Char} (hcode : Place.code.after text = .code)
    (hone : Seam guarded text one) (hother : Seam guarded text other) :
    ∃ pieces, cut previous (text ++ one) = pieces ++ cut (text.getLast?.or previous) one ∧
      cut previous (text ++ other) = pieces ++ cut (text.getLast?.or previous) other := by
  induction hn : text.length using Nat.strongRecOn generalizing previous text with
  | ind n ih =>
    subst hn
    cases text with
    | nil => exact ⟨[], rfl, rfl⟩
    | cons c rest =>
      obtain ⟨body, after, category, hsplit, hne, hafter, hheadone, hheadother⟩ :=
        headOf_seam previous hcode hone hother
      have hdrop : (c :: rest).drop body.length = after := by rw [hsplit, List.drop_left]
      have hshorter : after.length < (c :: rest).length := by
        have hpos := List.length_pos_iff.mpr hne
        rw [hsplit, List.length_append]
        omega
      obtain ⟨pieces, hpone, hpother⟩ := ih after.length hshorter body.getLast? hafter
        (hdrop ▸ hone.drop body.length) (hdrop ▸ hother.drop body.length) rfl
      have hbody : body.getLast?.or previous = body.getLast? :=
        Option.or_of_isSome (by simpa using hne)
      have hlast : (c :: rest).getLast?.or previous = after.getLast?.or body.getLast? := by
        rw [hsplit, List.getLast?_append, Option.or_assoc, hbody]
      have hlong : ∀ more, c :: (rest ++ more) = body ++ (after ++ more) := by
        intro more
        rw [← List.cons_append, hsplit, List.append_assoc]
      refine ⟨⟨category, body⟩ :: pieces, ?_, ?_⟩
      · rw [List.cons_append, cut_of_head (hlong one) hne hheadone, hpone, hlast, List.cons_append]
      · rw [List.cons_append, cut_of_head (hlong other) hne hheadother, hpother, hlast,
          List.cons_append]

end cut

end Raw

end ScriptSpans
