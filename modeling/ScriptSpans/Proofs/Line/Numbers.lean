import ScriptSpans.Proofs.Line.Names

namespace ScriptSpans

open Lexicon Region

def Stretch.stop (s : Stretch) : Nat := s.start + s.chars.length

/-- What a search from the left takes of the candidates that begin at `place` or later: the first to
begin, the longest of those that begin there, and what it takes from the end of that one on. -/
inductive LeftmostLongest (candidate : Stretch → Prop) : Nat → List Stretch → Prop
  | nil {place : Nat} (none : ∀ s, candidate s →
      s.start < place) : LeftmostLongest candidate place []
  | cons {place : Nat} {first : Stretch} {later : List Stretch} (chosen : candidate first)
      (behind : place ≤ first.start) (leftmost : ∀ s, candidate s → place ≤ s.start →
        first.start ≤ s.start)
      (longest : ∀ s, candidate s → s.start = first.start → s.chars.length ≤ first.chars.length)
      (tail : LeftmostLongest candidate first.stop later) :
        LeftmostLongest candidate place (first :: later)

namespace LeftmostLongest

variable {candidate other : Stretch → Prop} {place : Nat} {chosen : List Stretch}

theorem congr (h : LeftmostLongest candidate place chosen)
    (hiff : ∀ s, place ≤ s.start → (candidate s ↔ other s)) :
    LeftmostLongest other place chosen := by
  induction h with
  | @nil place none =>
    refine .nil (fun s hs ↦ ?_)
    by_contra hplace
    have hle := Nat.le_of_not_lt hplace
    exact hplace (none s ((hiff s hle).mpr hs))
  | @cons place first later hfirst behind leftmost longest _ ih =>
    have hstop : place ≤ first.stop := Nat.le_add_right_of_le behind
    refine .cons ((hiff first behind).mp hfirst) behind ?_ ?_
      (ih (fun s hs ↦ hiff s (hstop.trans hs)))
    · intro s hs hplace
      exact leftmost s ((hiff s hplace).mpr hs) hplace
    · intro s hs hstart
      exact longest s ((hiff s (hstart ▸ behind)).mpr hs) hstart

theorem of_le {middle : Nat} (h : LeftmostLongest candidate middle chosen) (hle : place ≤ middle)
    (hnone : ∀ s, candidate s → place ≤ s.start → middle ≤ s.start) :
    LeftmostLongest candidate place chosen := by
  cases h with
  | nil none =>
    refine .nil (fun s hs ↦ ?_)
    by_contra hplace
    exact absurd (none s hs) (Nat.not_lt.mpr (hnone s hs (Nat.le_of_not_lt hplace)))
  | cons hfirst behind leftmost longest tail =>
    exact .cons hfirst (hle.trans behind) (fun s hs hplace ↦ leftmost s hs (hnone s hs hplace))
      longest tail

theorem unique (hsame : ∀ s t, candidate s → candidate t → s.start = t.start →
    s.chars.length = t.chars.length → s = t) (h : LeftmostLongest candidate place chosen)
    {others : List Stretch} (h' : LeftmostLongest candidate place others) : chosen = others := by
  induction h generalizing others with
  | nil none =>
    cases h' with
    | nil => rfl
    | cons hfirst behind => exact absurd (none _ hfirst) (Nat.not_lt.mpr behind)
  | @cons place first later hfirst behind leftmost longest _ ih =>
    cases h' with
    | nil none => exact absurd (none _ hfirst) (Nat.not_lt.mpr behind)
    | @cons _ head rest hhead behind' leftmost' longest' tail' =>
      have hstart : first.start = head.start :=
        Nat.le_antisymm (leftmost head hhead behind') (leftmost' first hfirst behind)
      have hlength : first.chars.length = head.chars.length :=
        Nat.le_antisymm (longest' first hfirst hstart) (longest head hhead hstart.symm)
      obtain rfl := hsame first head hfirst hhead hstart hlength
      rw [ih tail']

end LeftmostLongest

namespace Raw

/-- A digit, then digits and underscores, then perhaps a point with digits behind it. -/
inductive IsDecimal : List Char → Prop
  | whole {d : Char} {more : List Char} (first : d.isDigit)
      (digits : ∀ c ∈ more, isDigitOrBreak c) :
      IsDecimal (d :: more)
  | fraction {d : Char} {more decimals : List Char} (first : d.isDigit)
      (digits : ∀ c ∈ more, isDigitOrBreak c)
      (nonempty : decimals ≠ []) (decimal : ∀ c ∈ decimals, c.isDigit) :
      IsDecimal (d :: more ++ '.' :: decimals)

/-- An occurrence of a number in a text of code after `previous`, with no guard on either side. It
need not be the longest that begins there, nor the first of those that overlap. -/
structure Numeral (previous : Option Char) (text before chars after : List Char) : Prop where
  joined : text = before ++ (chars ++ after)
  code : Place.code.after before = .code
  decimal : IsDecimal chars
  left : (before.getLast?.or previous).any isGuard = false
  right : after.head?.any isGuard = false

def IsNumeral (previous : Option Char) (position : Nat) (text : List Char) (s : Stretch) : Prop :=
  s.category = .number ∧ ∃ before after, Numeral previous text before s.chars after ∧
    s.start = position + before.length

theorem IsDecimal.exists_cons {chars : List Char} (h : IsDecimal chars) :
    ∃ d rest, chars = d :: rest ∧ d.isDigit := by
  cases h with
  | @whole d more first => exact ⟨d, more, rfl, first⟩
  | @fraction d more decimals first => exact ⟨d, more ++ '.' :: decimals, rfl, first⟩

theorem isIdentifierChar_of_isDigit {c : Char} (h : c.isDigit) : isIdentifierChar c :=
  isIdentifierChar_of_isDigitOrBreak (by simp [isDigitOrBreak, h])

theorem any_of_any_isGuard {p : Char → Bool} (hp : ∀ c, p c → isIdentifierChar c) {c : Option Char}
    (h : c.any isGuard = false) : c.any p = false := by
  cases c with
  | none => rfl
  | some c =>
    rw [Option.any_some, Bool.eq_false_iff] at h ⊢
    exact fun hc ↦ h (isGuard_of_isIdentifierChar (hp c hc))

theorem lengthsBefore_cases (whole : Nat) (after : List Char) :
    Rule.lengthsBefore whole after = [whole] ∨
      ∃ fraction, Rule.lengthsBefore whole after = [whole + 1 + fraction, whole] := by
  by_cases hpoint : after.head? = some '.'
  · obtain ⟨rest, rfl⟩ := List.head?_eq_some_iff.mp hpoint
    rw [Rule.lengthsBefore]
    split
    · exact .inl rfl
    · exact .inr ⟨_, rfl⟩
  · exact .inl (lengthsBefore_of_ne hpoint)

theorem IsDecimal.mem_numberLengths {chars after : List Char} (h : IsDecimal chars)
    (hafter : after.head?.any isGuard = false) :
    chars.length ∈ Rule.numberLengths (chars ++ after) := by
  cases h with
  | @whole d more first digits =>
    have hrun : ∀ c ∈ d :: more, isDigitOrBreak c :=
      List.forall_mem_cons.mpr ⟨by simp [isDigitOrBreak, first], digits⟩
    have hstop := any_of_any_isGuard (fun _ ↦ isIdentifierChar_of_isDigitOrBreak) hafter
    rw [numberLengths_append hrun hstop]
    rcases lengthsBefore_cases (d :: more).length after with hlengths | ⟨fraction, hlengths⟩
    · rw [hlengths]
      exact List.mem_singleton_self _
    · rw [hlengths]
      exact List.mem_cons_of_mem _ (List.mem_singleton_self _)
  | @fraction d more decimals first digits nonempty decimal =>
    have hrun : ∀ c ∈ d :: more, isDigitOrBreak c :=
      List.forall_mem_cons.mpr ⟨by simp [isDigitOrBreak, first], digits⟩
    have hstop := any_of_any_isGuard (fun _ ↦ isIdentifierChar_of_isDigit) hafter
    have hdecimals : (decimals ++ after).takeWhile Char.isDigit = decimals := by
      rw [List.takeWhile_append_of_pos decimal, takeWhile_eq_nil_of_head? hstop, List.append_nil]
    have hpoint : ('.' :: (decimals ++ after)).head?.any isDigitOrBreak = false := rfl
    have hlengths := numberLengths_append hrun hpoint
    rw [Rule.lengthsBefore, hdecimals] at hlengths
    have htext : d :: more ++ '.' :: decimals ++ after = d :: more ++ '.' :: (decimals ++ after) :=
      List.append_assoc _ _ _
    rw [htext, hlengths]
    have hpos := List.length_pos_iff.mpr nonempty
    rw [if_neg (Nat.ne_of_gt hpos), List.length_append, List.length_cons, Nat.add_assoc,
      Nat.add_comm 1]
    exact List.mem_cons_self

theorem pairwise_numberLengths (text : List Char) : (Rule.numberLengths text).Pairwise (· > ·) := by
  rw [Rule.numberLengths]
  rcases lengthsBefore_cases (text.takeWhile isDigitOrBreak).length
    (text.drop (text.takeWhile isDigitOrBreak).length) with hlengths | ⟨fraction, hlengths⟩
  · rw [hlengths]
    exact List.pairwise_singleton _ _
  · rw [hlengths, List.pairwise_pair]
    omega

theorem le_of_find?_eq_some {lengths : List Nat} (hsorted : lengths.Pairwise (· > ·))
    {p : Nat → Bool} {found n : Nat} (hfound : lengths.find? p = some found) (hn : n ∈ lengths)
    (hp : p n) : n ≤ found := by
  obtain ⟨-, earlier, later, rfl, hearlier⟩ := List.find?_eq_some_iff_append.mp hfound
  rcases List.mem_append.mp hn with hn | hn
  · exact absurd hp (by simpa using hearlier n hn)
  · rcases List.mem_cons.mp hn with rfl | hn
    · exact Nat.le_refl _
    · have hlater := (List.pairwise_append.mp hsorted).2.1
      exact Nat.le_of_lt (List.rel_of_pairwise_cons hlater hn)

namespace Numeral

variable {previous : Option Char} {text before chars after : List Char}
    (h : Numeral previous text before chars after)
include h

theorem exists_eq_append_cons : ∃ d rest, text = before ++ d :: rest ∧ d.isDigit := by
  obtain ⟨d, rest, rfl, hd⟩ := h.decimal.exists_cons
  exact ⟨d, rest ++ after, h.joined, hd⟩

theorem literal?_eq_none (hbefore : before = []) : literal? text = none := by
  obtain ⟨d, rest, htext, hd⟩ := h.exists_eq_append_cons
  rw [htext, hbefore]
  exact literal?_of_not_mayOpen (not_mayOpen_of_isIdentifierChar (isIdentifierChar_of_isDigit hd)) _

theorem not_commentMark : ¬ commentMark <+: text := by
  obtain ⟨d, rest, htext, hd⟩ := h.exists_eq_append_cons
  rw [htext]
  exact not_commentMark_of_code h.code (isIdentifierChar_of_isDigit hd) rest

end Numeral

theorem exists_ofWord_of_numeral {w : Word} (maximal : w.Maximal) {chars after : List Char}
    (h : Numeral w.previous (w.chars ++ w.after) [] chars after) (closing : Bool) :
    ∃ length, ofWord closing w = (length, .number) ∧ chars.length ≤ length := by
  have hjoined : w.chars ++ w.after = chars ++ after := h.joined
  have hfirst : w.firstIs Char.isDigit := by
    obtain ⟨d, rest, htext, hd⟩ := h.exists_eq_append_cons
    obtain ⟨c, more, hchars⟩ := List.exists_cons_of_ne_nil maximal.nonempty
    rw [hchars] at htext
    obtain ⟨rfl, -⟩ := List.cons.inj htext
    rw [Word.firstIs, hchars]
    exact hd
  let free : Nat → Bool := fun length ↦ !((chars ++ after).drop length).head?.any isGuard
  have hmem := h.decimal.mem_numberLengths h.right
  have hfree : free chars.length := by
    simp only [free, List.drop_left, h.right, Bool.not_false]
  obtain ⟨length, hlength⟩ := Option.isSome_iff_exists.mp (List.find?_isSome.mpr ⟨_, hmem, hfree⟩)
  have hnumber : Rule.numberLength? w = some length := by
    rw [Rule.numberLength?, if_pos ⟨hfirst, by simpa using h.left⟩, hjoined]
    exact hlength
  refine ⟨length, ?_, le_of_find?_eq_some (pairwise_numberLengths _) hlength hmem hfree⟩
  cases kind w with
  | decimal keyword _ upper =>
    rw [ofWord, if_neg (by simp [keyword]), if_neg (by simp [upper]), if_pos hfirst, hnumber]
  | reserved _ _ _ digit | name _ _ _ digit | capital _ _ _ digit | other _ _ _ digit =>
    exact absurd hfirst (by simp [digit])

theorem numberLength?_of_ofWord {w : Word} {closing : Bool} {length : Nat}
    (h : ofWord closing w = (length, .number)) :
    w.firstIs Char.isDigit ∧ w.previous.any isGuard = false ∧ Rule.numberLength? w = some length ∧
      ((w.chars ++ w.after).drop length).head?.any isGuard = false := by
  have hnumber : Rule.numberLength? w = some length := by
    unfold ofWord at h
    split_ifs at h
    all_goals cases hn : Rule.numberLength? w <;> simp_all
  have hfind := hnumber
  rw [Rule.numberLength?] at hfind
  split_ifs at hfind with hword
  have hfree := List.find?_some hfind
  exact ⟨hword.1, by simpa using hword.2, hnumber, by simpa using hfree⟩

namespace Cuts

variable {previous : Option Char} {text : List Char} {piece : Piece} {later pieces : List Piece}

theorem isDecimal_word {w : Word} (maximal : w.Maximal) {length : Nat}
    (hfirst : w.firstIs Char.isDigit) (hnumber : Rule.numberLength? w = some length) :
    ∃ d more, w.chars = d :: more ∧ d.isDigit ∧ ∀ c ∈ more, isDigitOrBreak c := by
  obtain ⟨d, more, hchars⟩ := List.exists_cons_of_ne_nil maximal.nonempty
  have hdigits := isDigitOrBreak_of_numberLength? maximal hnumber
  rw [Word.firstIs, hchars] at hfirst
  rw [hchars] at hdigits
  exact ⟨d, more, hchars, hfirst, (List.forall_mem_cons.mp hdigits).2⟩

theorem numeral_of_head (h : Cuts previous text (piece :: later))
    (hnumber : piece.category = .number) :
    ∃ after, Numeral previous text [] piece.chars after := by
  cases h with
  | literal opens =>
    obtain rfl := hnumber
    cases region_of_literal (literal?_isLiteral opens)
  | comment => cases hnumber
  | @word w category _ maximal head =>
    obtain rfl : category = .number := hnumber
    obtain ⟨hfirst, hprevious, hlength, hfree⟩ := numberLength?_of_ofWord head
    obtain ⟨d, more, hchars, hd, hmore⟩ := isDecimal_word maximal hfirst hlength
    rw [Word.length, List.drop_left] at hfree
    exact ⟨w.after, rfl, rfl, hchars ▸ .whole hd hmore, hprevious, hfree⟩
  | @fraction w digits rest _ maximal _ nonempty decimal unguarded head =>
    obtain ⟨hfirst, hprevious, hlength, -⟩ := numberLength?_of_ofWord head
    obtain ⟨d, more, hchars, hd, hmore⟩ := isDecimal_word maximal hfirst hlength
    refine ⟨rest, by simp, rfl, ?_, hprevious, unguarded⟩
    rw [hchars]
    exact .fraction hd hmore nonempty decimal
  | other => cases hnumber

/-- A numeral that begins within a piece begins within a number, and it is no longer than that if it
begins with it. -/
theorem head_of_numeral (h : Cuts previous text (piece :: later)) {before chars after : List Char}
    (hnumeral : Numeral previous text before chars after)
    (hinside : before.length < piece.chars.length) :
    piece.category = .number ∧ (before = [] → chars.length ≤ piece.chars.length) := by
  cases h with
  | literal opens =>
    by_cases hbefore : before = []
    · rw [hnumeral.literal?_eq_none hbefore] at opens
      cases opens
    · -- the literal would still be open where the numeral begins
      rw [hnumeral.joined] at opens
      have hle := Place.length_le_of_literal? hnumeral.code hbefore opens
      exact absurd hinside (Nat.not_lt.mpr hle)
  | comment _ mark => exact absurd mark hnumeral.not_commentMark
  | @word w category _ maximal head =>
    have hleft := any_of_any_isGuard (fun _ hc ↦ hc) hnumeral.left
    obtain rfl := eq_nil_of_word maximal hnumeral.joined (Nat.le_of_lt hinside) hleft
    obtain ⟨length, hof, hle⟩ := exists_ofWord_of_numeral maximal hnumeral (closes w.after)
    obtain ⟨rfl, rfl⟩ := Prod.mk.inj (head.symm.trans hof)
    exact ⟨rfl, fun _ ↦ hle⟩
  | @fraction w digits rest _ maximal point nonempty decimal _ head =>
    refine ⟨rfl, fun hbefore ↦ ?_⟩
    subst hbefore
    rw [← point] at hnumeral
    obtain ⟨length, hof, hle⟩ := exists_ofWord_of_numeral maximal hnumeral (closes w.after)
    obtain ⟨rfl, -⟩ := Prod.mk.inj (head.symm.trans hof)
    rw [List.length_append, List.length_cons, Nat.add_comm digits.length, ← Nat.add_assoc]
    exact hle
  | @other _ c rest _ _ _ apart =>
    have hbefore : before = [] := List.length_eq_zero_iff.mp (Nat.lt_one_iff.mp hinside)
    obtain ⟨d, more, htext, hd⟩ := hnumeral.exists_eq_append_cons
    rw [hbefore] at htext
    rw [(List.cons.inj htext).1, isIdentifierChar_of_isDigit hd] at apart
    cases apart

end Cuts

theorem isNumeral_append {previous : Option Char} {position : Nat} {body rest : List Char}
    (hbody : body ≠ [])
    (hplace : ∀ seen, seen <+: rest → Place.code.after (body ++ seen) = Place.code.after seen)
    {s : Stretch} (hs : position + body.length ≤ s.start) :
    IsNumeral body.getLast? (position + body.length) rest s ↔
      IsNumeral previous position (body ++ rest) s := by
  have hlast :
      ∀ seen : List Char, (body ++ seen).getLast?.or previous = seen.getLast?.or body.getLast? := by
    intro seen
    have hsome : body.getLast?.or previous = body.getLast? :=
      Option.or_of_isSome (by simpa using hbody)
    rw [List.getLast?_append, Option.or_assoc, hsome]
  refine and_congr_right fun _ ↦ ⟨?_, ?_⟩
  · rintro ⟨seen, after, h, hstart⟩
    refine ⟨body ++ seen, after, ⟨?_, ?_, h.decimal, ?_, h.right⟩, ?_⟩
    · rw [h.joined, List.append_assoc]
    · rw [hplace seen ⟨_, h.joined.symm⟩, h.code]
    · rw [hlast, h.left]
    · rw [hstart, List.length_append, Nat.add_assoc]
  · rintro ⟨before, after, h, hstart⟩
    have hle : body.length ≤ before.length := by omega
    obtain ⟨seen, rfl⟩ : body <+: before :=
      List.prefix_of_prefix_length_le (List.prefix_append body rest) ⟨_, h.joined.symm⟩ hle
    have hjoined := h.joined
    rw [List.append_assoc] at hjoined
    have hrest := List.append_cancel_left hjoined
    refine ⟨seen, after, ⟨hrest, ?_, h.decimal, ?_, h.right⟩, ?_⟩
    · rw [← hplace seen ⟨_, hrest.symm⟩, h.code]
    · rw [← hlast, h.left]
    · rw [hstart, List.length_append, Nat.add_assoc]

theorem IsNumeral.start_lt {previous : Option Char} {position : Nat}
    {text : List Char} {s : Stretch} (h : IsNumeral previous position text s) :
    position ≤ s.start ∧ s.start < position + text.length := by
  obtain ⟨-, before, after, hnumeral, hstart⟩ := h
  obtain ⟨d, rest, htext, -⟩ := hnumeral.exists_eq_append_cons
  have hlength := congrArg List.length htext
  rw [List.length_append, List.length_cons] at hlength
  omega

theorem IsNumeral.eq {previous : Option Char} {position : Nat} {text : List Char} {s t : Stretch}
    (hs : IsNumeral previous position text s) (ht : IsNumeral previous position text t)
    (hstart : s.start = t.start) (hlength : s.chars.length = t.chars.length) : s = t := by
  obtain ⟨hcategory, before, after, hnumeral, hbefore⟩ := hs
  obtain ⟨hcategory', before', after', hnumeral', hbefore'⟩ := ht
  have hjoined := hnumeral.joined.symm.trans hnumeral'.joined
  obtain ⟨-, hrest⟩ := List.append_inj hjoined (by omega)
  obtain ⟨hchars, -⟩ := List.append_inj hrest hlength
  cases s
  cases t
  simp_all

/-- The search takes the piece in front if it is a number, and passes over it if it is not. -/
theorem Cuts.leftmostLongest_piece {previous : Option Char} {text : List Char} {piece : Piece}
    {later : List Piece} (h : Cuts previous text (piece :: later)) (position : Nat)
    {chosen : List Stretch}
    (hrest : LeftmostLongest (IsNumeral previous position text)
      (position + piece.chars.length) chosen) :
    LeftmostLongest (IsNumeral previous position text) position
      (if decide (piece.category = .number) then ⟨piece.category, position, piece.chars⟩ :: chosen
        else chosen) := by
  split
  · rename_i hnumber
    obtain ⟨after, hnumeral⟩ := h.numeral_of_head (of_decide_eq_true hnumber)
    have hpos := List.length_pos_iff.mpr (h.chars_ne_nil piece List.mem_cons_self)
    refine .cons ⟨of_decide_eq_true hnumber, [], after, hnumeral, rfl⟩ (Nat.le_refl _)
      (fun s hs _ ↦ hs.start_lt.1) ?_ hrest
    rintro s ⟨-, before, after, hs, hstart⟩ hsame
    have hbefore : before = [] := List.length_eq_zero_iff.mp (by simp only at hsame; omega)
    exact (h.head_of_numeral hs (by rwa [hbefore, List.length_nil])).2 hbefore
  · rename_i hnumber
    refine hrest.of_le (Nat.le_add_right _ _) ?_
    rintro s ⟨-, before, after, hs, hstart⟩ -
    by_contra hinside
    exact hnumber (decide_eq_true (h.head_of_numeral hs (by omega)).1)

/-- A search from the left for the longest numerals finds the numbers that are cut off. -/
theorem Cuts.leftmostLongest {previous : Option Char} {text : List Char} {pieces : List Piece}
    (h : Cuts previous text pieces) (position : Nat) :
    LeftmostLongest (IsNumeral previous position text) position
      ((Span.located position (pieces.map Piece.span)).filter (fun s ↦ s.category = .number)) := by
  induction pieces generalizing previous text position with
  | nil =>
    have htext := h.flatMap_chars
    refine .nil (fun s hs ↦ absurd hs.start_lt ?_)
    rw [← htext]
    simp
  | cons piece later ih =>
    have hne := h.chars_ne_nil piece List.mem_cons_self
    rw [located_cons, List.filter_cons]
    refine h.leftmostLongest_piece position ?_
    cases later with
    | nil =>
      have htext := h.flatMap_chars
      rw [List.flatMap_singleton] at htext
      exact .nil (fun s hs ↦ htext ▸ hs.start_lt.2)
    | cons next later =>
      obtain ⟨rest, rfl, htail, -, hplace⟩ := h.tail (List.cons_ne_nil next later)
      exact (ih htail _).congr (fun s hs ↦ isNumeral_append hne hplace hs)

theorem filter_located_numbers {config : Config} {raw : String} (lineno : Int)
    (hlimit : ∀ limit ∈ config.maxLineLength, raw.length ≤ limit) :
    (Span.located 0 (Line.ofSource config raw lineno).value.spans).filter
      (fun s ↦ s.category = .number) =
      (Span.located 0 ((cut none raw.toList).map Piece.span)).filter
        (fun s ↦ s.category = .number) := by
  rw [spans_of_length_le lineno hlimit, filter_located_joinFrom (q := fun c ↦ c = .number) rfl]
  rfl

end Raw

/-- The numbers of a line within the limit are the numerals that a search from the left for the
longest takes, and there is only one way to take them. -/
theorem Line.ofSource_numbers (config : Config) (raw : String) (lineno : Int)
    (hlimit : ∀ limit ∈ config.maxLineLength, raw.length ≤ limit) (chosen : List Stretch) :
    LeftmostLongest (Raw.IsNumeral none 0 raw.toList) 0 chosen ↔
      chosen = (Span.located 0 (Line.ofSource config raw lineno).value.spans).filter
        (fun s ↦ s.category = .number) := by
  have hnumbers := (Raw.cuts_cut none raw.toList).leftmostLongest 0
  rw [← Raw.filter_located_numbers lineno hlimit] at hnumbers
  constructor
  · intro h
    exact h.unique (fun s t hs ht ↦ hs.eq ht) hnumbers
  · rintro rfl
    exact hnumbers

theorem Line.ofSource_numbers_chains :
    let raw := "1.2.3 1.2_3 3.14a '4'5 &7<8 x9 // 6"
    (∀ limit ∈ (some 80 : Option Nat), raw.length ≤ limit) ∧
      LeftmostLongest (Raw.IsNumeral none 0 raw.toList) 0
        [⟨.number, 0, "1.2".toList⟩, ⟨.number, 4, "3".toList⟩, ⟨.number, 6, "1".toList⟩,
          ⟨.number, 8, "2_3".toList⟩,
          ⟨.number, 12, "3".toList⟩, ⟨.number, 24, "7".toList⟩, ⟨.number, 26, "8".toList⟩] := by
  intro raw
  have hlimit : ∀ limit ∈ (some 80 : Option Nat), raw.length ≤ limit := by
    intro limit h
    cases h
    decide
  refine ⟨hlimit, (Line.ofSource_numbers { maxLineLength := some 80 } raw 1 hlimit _).mpr ?_⟩
  rw [Raw.filter_located_numbers 1 hlimit]
  decide +kernel

end ScriptSpans
