import ScriptSpans.Proofs.Line.Seams

namespace ScriptSpans

open Lexicon Markup Region

namespace Raw

theorem spans_of_length_le {config : Config} {raw : String} (lineno : Int)
    (h : ∀ limit ∈ config.maxLineLength, raw.length ≤ limit) :
    (Line.ofSource config raw lineno).value.spans =
      (joinFrom [] (cut none raw.toList)).map Piece.span := by
  rw [Line.ofSource_value, piecesOf_of_length_le (by simpa only [String.length_toList] using h)]

theorem cut_literal {body after : List Char} {category : Category}
    (h : literal? (body ++ after) = some (body.length, category)) (previous : Option Char) :
    cut previous (body ++ after) = ⟨category, body⟩ :: cut body.getLast? after := by
  have hbody : body ≠ [] := List.length_pos_iff.mp (literal?_length h).1
  obtain ⟨c, rest, rfl⟩ := List.exists_cons_of_ne_nil hbody
  exact cut_of_head rfl hbody (headOf_literal previous h)

end Raw

/-- After code that is not in the middle of anything, the comment is one span, and the spans of the
code are the same as if the comment were not there. -/
theorem Line.ofSource_comment (config : Config) (code tail : String) (lineno : Int)
    (hcode : Place.code.after code.toList = .code) (hslash : code.toList.getLast? ≠ some '/')
    (hlimit : ∀ limit ∈ config.maxLineLength, (code ++ "//" ++ tail).length ≤ limit) :
    (Line.ofSource config (code ++ "//" ++ tail) lineno).value.spans =
      (Line.ofSource config code lineno).value.spans ++ [⟨.comment, escape ("//" ++ tail)⟩] := by
  have hshort : ∀ limit ∈ config.maxLineLength, code.length ≤ limit := by
    intro limit h
    have hle := hlimit limit h
    rw [String.length_append, String.length_append] at hle
    omega
  have hlong : (code ++ "//" ++ tail).toList = code.toList ++ '/' :: '/' :: tail.toList := by
    simp [String.toList_append]
  have hnothing : Seam false code.toList [] := ⟨.stop, rfl, by simp⟩
  have hcomment : Seam false code.toList ('/' :: '/' :: tail.toList) :=
    ⟨.comment, rfl, fun h ↦ hslash h.1⟩
  obtain ⟨pieces, halone, hboth⟩ := Raw.cut_seam none hcode hnothing hcomment
  rw [List.append_nil, Raw.cut, List.append_nil] at halone
  have hmark : ∀ previous, Raw.cut previous ('/' :: '/' :: tail.toList) = _ :=
    Raw.cut_mark rfl (List.prefix_append ['/', '/'] tail.toList)
  rw [hmark, ← halone] at hboth
  rw [Raw.spans_of_length_le lineno hlimit, Raw.spans_of_length_le lineno hshort, hlong, hboth,
    Raw.joinFrom_append [] _ (by simp), List.map_append]
  simp [Raw.joinFrom, Raw.plainPiece, Raw.Piece.span, escape]

/-- Slashes in a string and in a template, an open bracket and a number at the end of the code; a
bracket, a call and an open string in the comment. -/
theorem Line.ofSource_comment_lookahead :
    let code := "f('\\'//', \x60//\x60) T<U 1."
    let tail := "> ( 'x"
    Place.code.after code.toList = .code ∧ code.toList.getLast? ≠ some '/' ∧
      (∀ limit ∈ (some 80 : Option Nat), (code ++ "//" ++ tail).length ≤ limit) ∧
      (Line.ofSource { maxLineLength := some 80 } (code ++ "//" ++ tail) 1).value.spans =
        (Line.ofSource { maxLineLength := some 80 } code 1).value.spans ++
          [⟨.comment, escape ("//" ++ tail)⟩] := by
  intro code tail
  have hcode : Place.code.after code.toList = .code := by decide
  have hslash : code.toList.getLast? ≠ some '/' := by decide
  have hlimit : ∀ limit ∈ (some 80 : Option Nat), (code ++ "//" ++ tail).length ≤ limit := by
    intro limit h
    cases h
    decide
  exact ⟨hcode, hslash, hlimit, Line.ofSource_comment { maxLineLength := some 80 } code tail 1 hcode
    hslash hlimit⟩

/-- A body that ends at the next delimiter: it does not hold one, and a string holds no backslash
either. -/
def Region.Encloses (delimiter : Char) (body : String) : Prop :=
  ∀ c ∈ body.toList, c ≠ delimiter ∧ (isQuote delimiter → isBackslash c = false)

instance (delimiter : Char) (body : String) : Decidable (Region.Encloses delimiter body) :=
  List.decidableBAll _ body.toList

def Region.enclosed (delimiter : Char) (body : String) : String :=
  String.singleton delimiter ++ body ++ String.singleton delimiter

def Region.categoryOf (delimiter : Char) : Category :=
  if isBacktick delimiter then .templateString else .string

namespace Region

theorem categoryOf_ne_plain (delimiter : Char) : categoryOf delimiter ≠ .plain := by
  rw [categoryOf]
  split <;> simp

theorem toList_enclosed (delimiter : Char) (body : String) :
    (enclosed delimiter body).toList = delimiter :: (body.toList ++ [delimiter]) := by
  simp [enclosed, String.toList_append]

theorem literal?_enclosed {delimiter : Char} (hdelimiter : isDelimiter delimiter) {body : String}
    (hbody : Encloses delimiter body) (after : List Char) :
    literal? ((enclosed delimiter body).toList ++ after) =
      some ((enclosed delimiter body).toList.length, categoryOf delimiter) := by
  have htext : (enclosed delimiter body).toList ++ after =
      delimiter :: (body.toList ++ (delimiter :: after)) := by
    simp [toList_enclosed]
  rw [htext, literal?, categoryOf, toList_enclosed, List.length_cons, List.length_append,
    List.length_singleton]
  by_cases hbacktick : isBacktick delimiter
  · have hfree : ∀ c ∈ body.toList, isBacktick c = false := by
      intro c hc
      obtain rfl : delimiter = '\x60' := by simpa [isBacktick] using hbacktick
      simpa [isBacktick] using (hbody c hc).1
    rw [if_pos hbacktick, if_pos hbacktick, templateLength_append hfree, templateLength,
      if_pos hbacktick]
  · have hquote : isQuote delimiter := by simpa [isDelimiter, hbacktick] using hdelimiter
    have hslash : isBackslash delimiter = false := by
      simp only [isQuote, Bool.or_eq_true, decide_eq_true_eq] at hquote
      rcases hquote with rfl | rfl <;> rfl
    rw [if_neg hbacktick, if_neg hbacktick, if_pos hquote,
      quotedLength_append (fun c hc ↦ ⟨(hbody c hc).2 hquote, (hbody c hc).1⟩),
      quotedLength_cons hslash, if_pos rfl]

end Region

/-- What a literal holds has no part in the spans before it and after it. -/
theorem Line.ofSource_literal (config : Config) (opening suffix : String) {delimiter : Char}
    {one other : String} (lineno : Int) (hcode : Place.code.after opening.toList = .code)
    (hdelimiter : isDelimiter delimiter) (hone : Encloses delimiter one)
    (hother : Encloses delimiter other) (honelimit : ∀ limit ∈ config.maxLineLength,
      (opening ++ enclosed delimiter one ++ suffix).length ≤ limit)
    (hotherlimit : ∀ limit ∈ config.maxLineLength,
      (opening ++ enclosed delimiter other ++ suffix).length ≤ limit) :
    ∃ before after : List Span,
      (Line.ofSource config (opening ++ enclosed delimiter one ++ suffix) lineno).value.spans =
        before ++ ⟨categoryOf delimiter, escape (enclosed delimiter one)⟩ :: after ∧
      (Line.ofSource config (opening ++ enclosed delimiter other ++ suffix) lineno).value.spans =
        before ++ ⟨categoryOf delimiter, escape (enclosed delimiter other)⟩ :: after := by
  have hplain := Region.categoryOf_ne_plain delimiter
  have hseam :
      ∀ body, Seam true opening.toList ((enclosed delimiter body).toList ++ suffix.toList) := by
    intro body
    rw [Region.toList_enclosed]
    refine ⟨.literal hdelimiter, ?_, ?_⟩
    · simp [isGuard, hdelimiter]
    · rintro ⟨-, hslash⟩
      obtain rfl : delimiter = '/' := by simpa using hslash
      cases hdelimiter
  obtain ⟨pieces, hcutone, hcutother⟩ := Raw.cut_seam none hcode (hseam one) (hseam other)
  -- behind the literal only its last character counts, and that is the delimiter
  have hcut : ∀ {body}, Encloses delimiter body → ∀ previous,
      Raw.cut previous ((enclosed delimiter body).toList ++ suffix.toList) =
        ⟨categoryOf delimiter, (enclosed delimiter body).toList⟩ :: Raw.cut (some delimiter)
          suffix.toList := by
    intro body hbody previous
    have hlast : (enclosed delimiter body).toList.getLast? = some delimiter := by
      rw [Region.toList_enclosed, ← List.cons_append, List.getLast?_concat]
    rw [Raw.cut_literal (Region.literal?_enclosed hdelimiter hbody suffix.toList), hlast]
  rw [hcut hone] at hcutone
  rw [hcut hother] at hcutother
  refine ⟨(Raw.joinFrom [] pieces).map Raw.Piece.span,
    (Raw.joinFrom [] (Raw.cut (some delimiter) suffix.toList)).map Raw.Piece.span, ?_, ?_⟩
  · rw [Raw.spans_of_length_le lineno honelimit, String.toList_append, String.toList_append,
      List.append_assoc, hcutone, Raw.joinFrom_append [] _ hplain, List.map_append]
    rfl
  · rw [Raw.spans_of_length_le lineno hotherlimit, String.toList_append, String.toList_append,
      List.append_assoc, hcutother, Raw.joinFrom_append [] _ hplain, List.map_append]
    rfl

theorem Line.ofSource_literal_neighbours :
    let opening := "T f 1."
    let suffix := "2 > U // '"
    let one := "//>\x60"
    let other := "3 x("
    Place.code.after opening.toList = .code ∧ isDelimiter '\'' ∧ Encloses '\'' one ∧
      Encloses '\'' other ∧
      (∀ limit ∈ (some 80 : Option Nat), (opening ++ enclosed '\'' one ++ suffix).length ≤ limit) ∧
      (∀ limit ∈ (some 80 : Option Nat), (opening ++ enclosed '\'' other ++ suffix).length ≤
        limit) ∧
      ∃ before after : List Span,
        (Line.ofSource { maxLineLength := some 80 } (opening ++ enclosed '\'' one ++ suffix)
          1).value.spans =
          before ++ ⟨categoryOf '\'', escape (enclosed '\'' one)⟩ :: after ∧
        (Line.ofSource { maxLineLength := some 80 } (opening ++ enclosed '\'' other ++ suffix)
          1).value.spans =
          before ++ ⟨categoryOf '\'', escape (enclosed '\'' other)⟩ :: after := by
  intro opening suffix one other
  have hcode : Place.code.after opening.toList = .code := by decide
  have hdelimiter : isDelimiter '\'' := by decide
  have hone : Encloses '\'' one := by decide
  have hother : Encloses '\'' other := by decide
  have honelimit :
      ∀ limit ∈ (some 80 : Option Nat), (opening ++ enclosed '\'' one ++ suffix).length ≤
      limit := by
    intro limit h
    cases h
    decide
  have hotherlimit : ∀ limit ∈ (some 80 : Option Nat),
      (opening ++ enclosed '\'' other ++ suffix).length ≤ limit := by
    intro limit h
    cases h
    decide
  exact ⟨hcode, hdelimiter, hone, hother, honelimit, hotherlimit, Line.ofSource_literal
    { maxLineLength := some 80 } opening suffix 1 hcode hdelimiter hone hother
    honelimit hotherlimit⟩

end ScriptSpans
