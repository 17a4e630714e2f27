import ScriptSpans.Feed
import Mathlib.Data.List.Basic

namespace ScriptSpans

open Markup

namespace Raw

theorem Piece.span_text (piece : Piece) : piece.span.text = escape (String.ofList piece.chars) := by
  rw [escape, String.toList_ofList]
  rfl

structure Slices (text : List Char) (pieces : List Piece) : Prop where
  nonempty : ∀ piece ∈ pieces, piece.chars ≠ []
  joined : pieces.flatMap Piece.chars = text
  chain : pieces.IsChain (fun a b ↦ ¬ (a.category = .plain ∧ b.category = .plain))

theorem slices_plainPiece (gap : List Char) : Slices gap (plainPiece gap) := by
  cases gap with
  | nil => exact ⟨by simp [plainPiece], rfl, .nil⟩
  | cons c rest => exact ⟨by simp [plainPiece], by simp [plainPiece], .singleton _⟩

theorem Slices.cons {text : List Char} {piece : Piece} {pieces : List Piece}
    (h : Slices text pieces) (hne : piece.chars ≠ []) (hplain : piece.category ≠ .plain) :
    Slices (piece.chars ++ text) (piece :: pieces) where
  nonempty := List.forall_mem_cons.mpr ⟨hne, h.nonempty⟩
  joined := by rw [List.flatMap_cons, h.joined]
  chain := by
    cases pieces with
    | nil => exact .singleton piece
    | cons => exact .cons_cons (fun hboth ↦ hplain hboth.1) h.chain

theorem Slices.plainPiece_append {text : List Char} {piece : Piece} {pieces : List Piece}
    (gap : List Char) (h : Slices text (piece :: pieces)) (hplain : piece.category ≠ .plain) :
    Slices (gap ++ text) (plainPiece gap ++ piece :: pieces) := by
  cases gap with
  | nil => exact h
  | cons c rest =>
    refine ⟨?_, ?_, ?_⟩
    · exact List.forall_mem_cons.mpr ⟨List.cons_ne_nil c rest, h.nonempty⟩
    · exact congrArg (c :: rest ++ ·) h.joined
    · exact .cons_cons (fun hboth ↦ hplain hboth.2) h.chain

theorem slices_joinFrom (gap : List Char) {pieces : List Piece}
    (h : ∀ piece ∈ pieces, piece.chars ≠ []) :
    Slices (gap ++ pieces.flatMap Piece.chars) (joinFrom gap pieces) := by
  induction pieces generalizing gap with
  | nil =>
    rw [List.flatMap_nil, List.append_nil]
    exact slices_plainPiece gap
  | cons piece later ih =>
    obtain ⟨hpiece, hlater⟩ := List.forall_mem_cons.mp h
    rw [joinFrom, List.flatMap_cons]
    split
    · rw [← List.append_assoc]
      exact ih _ hlater
    · rename_i hplain
      exact ((ih [] hlater).cons hpiece hplain).plainPiece_append gap hplain

/-- The pieces of a raw line: the whole of it, as plain text, if it is beyond the limit. -/
def piecesOf (config : Config) (raw : List Char) : List Piece :=
  match config.maxLineLength with
  | none => joinFrom [] (cut none raw)
  | some limit => if limit < raw.length then plainPiece raw else joinFrom [] (cut none raw)

theorem piecesOf_of_length_le {config : Config} {raw : List Char}
    (h : ∀ limit ∈ config.maxLineLength, raw.length ≤ limit) :
    piecesOf config raw = joinFrom [] (cut none raw) := by
  rw [piecesOf]
  cases hmax : config.maxLineLength with
  | none => rfl
  | some limit => exact if_neg (Nat.not_lt.mpr (h limit hmax))

theorem slices_piecesOf (config : Config) (raw : List Char) : Slices raw (piecesOf config raw) := by
  have hcut := slices_joinFrom [] (cuts_cut none raw).chars_ne_nil
  rw [List.nil_append, (cuts_cut none raw).flatMap_chars] at hcut
  unfold piecesOf
  split
  · exact hcut
  · split
    · exact slices_plainPiece raw
    · exact hcut

theorem piecesOf_nil (config : Config) : piecesOf config [] = [] := by
  have hslices := slices_piecesOf config []
  cases hpieces : piecesOf config [] with
  | nil => rfl
  | cons piece later =>
    rw [hpieces] at hslices
    have hjoined := hslices.joined
    rw [List.flatMap_cons, List.append_eq_nil_iff] at hjoined
    exact absurd hjoined.1 (hslices.nonempty piece List.mem_cons_self)

end Raw

section outcomes

variable {slate : Slate} {config : Config} {raw : String} {lineno : Int}

theorem Slate.line_eq {result : Logged (Line × Slate)}
    (h : slate.line? config raw lineno = .ok result) : slate.line config raw lineno = result :=
  Except.ok.inj ((slate.line?_eq config raw lineno).symm.trans h)

theorem Slate.line_empty : slate.line config "" lineno = pure (⟨[], lineno⟩, slate) :=
  Slate.line_eq rfl

theorem Slate.line_overlong {limit : Nat} (h : config.maxLineLength = some limit)
    (hlimit : limit < raw.length) :
    slate.line config raw lineno = ⟨(⟨[⟨.plain, escape raw⟩], lineno⟩,
      slate.put (escapeList raw.toList)), [.overlong lineno raw.length limit]⟩ := by
  have hraw : raw.isEmpty = false := by
    rw [Bool.eq_false_iff, ne_eq, String.isEmpty_iff]
    rintro rfl
    exact absurd hlimit (Nat.not_lt_zero limit)
  apply Slate.line_eq
  simp only [Slate.line?, hraw, h, Option.filter_some, hlimit, decide_true, if_true,
    Bool.false_eq_true, if_false]
  rfl

theorem Slate.line_classified (hraw : raw ≠ "")
    (h : ∀ limit ∈ config.maxLineLength, raw.length ≤ limit) {done : Slate}
    (hdone : (Slate.blank.put (escapeList raw.toList)).classify = .ok done) :
    slate.line config raw lineno = pure (⟨done.spans, lineno⟩, done) := by
  have hempty : raw.isEmpty = false := by simpa [Bool.eq_false_iff, String.isEmpty_iff] using hraw
  have hlimit : config.maxLineLength.filter (· < raw.length) = none := by
    rw [Option.filter_eq_none_iff]
    exact fun limit hlimit ↦ by simpa using h limit hlimit
  have hput : slate.put (escapeList raw.toList) = Slate.blank.put (escapeList raw.toList) := rfl
  apply Slate.line_eq
  simp only [Slate.line?, hempty, hlimit, hput, hdone, Bool.false_eq_true, if_false]
  rfl

end outcomes

/-- The line does not depend on what was on the slate before. -/
theorem Slate.line_value (slate : Slate) (config : Config) (raw : String) (lineno : Int) :
    (slate.line config raw lineno).value.1 =
      ⟨(Raw.piecesOf config raw.toList).map Raw.Piece.span, lineno⟩ := by
  by_cases hraw : raw = ""
  · rw [hraw, Slate.line_empty, String.toList_empty, Raw.piecesOf_nil]
    rfl
  · have hsome : raw.toList.isEmpty = false := by simpa using hraw
    obtain ⟨done, hdone, hspans⟩ := Raw.slate_escapeList raw.toList
    cases hmax : config.maxLineLength with
    | none =>
      rw [Slate.line_classified hraw (by simp [hmax]) hdone, Raw.piecesOf, hmax]
      exact congrArg (Line.mk · lineno) hspans
    | some limit =>
      rw [Raw.piecesOf, hmax]
      dsimp only
      rw [String.length_toList]
      split
      · rename_i hlimit
        rw [Slate.line_overlong hmax hlimit, Raw.plainPiece, hsome]
        rfl
      · rename_i hlimit
        rw [Slate.line_classified hraw (by simpa [hmax] using hlimit) hdone]
        exact congrArg (Line.mk · lineno) hspans

theorem Line.ofSource_value (config : Config) (raw : String) (lineno : Int) :
    (Line.ofSource config raw lineno).value =
      ⟨(Raw.piecesOf config raw.toList).map Raw.Piece.span, lineno⟩ :=
  Slate.line_value .blank config raw lineno

theorem Line.ofSource_lineno (config : Config) (raw : String) (lineno : Int) :
    (Line.ofSource config raw lineno).value.lineno = lineno := by
  rw [Line.ofSource_value]

theorem Line.ofSource_spans (config : Config) (raw : String) (lineno other : Int) :
    (Line.ofSource config raw lineno).value.spans =
      (Line.ofSource config raw other).value.spans := by
  rw [Line.ofSource_value, Line.ofSource_value]

theorem Slate.line_eq_ofSource (slate : Slate) (config : Config) (raw : String) (lineno : Int) :
    (slate.line config raw lineno).value.1 = (Line.ofSource config raw lineno).value := by
  rw [Slate.line_value, Line.ofSource_value]

end ScriptSpans
