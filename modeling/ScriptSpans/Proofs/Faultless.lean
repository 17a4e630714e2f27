import ScriptSpans.Proofs.Document

namespace ScriptSpans

open Markup Region

namespace Raw

/-- The comment is what comes after the code, and nothing else reaches beyond the code. -/
theorem Walked.claimsAt_codeEnd {text : List Char} {pieces : List Piece} (h : Walked text pieces)
    {position : Nat} {c : Claim} (hc : c ∈ claimsAt position pieces) :
    (c.category = .comment → c.start = Raw.codeEndAt position pieces ∧
      c.stop = position + width text) ∧
      (c.category ≠ .comment → c.stop ≤ Raw.codeEndAt position pieces) := by
  induction h generalizing position with
  | nil => cases hc
  | @literal body rest category pieces opens _ ih =>
    have hcategory := of_decide_eq_false (literal?_not_comment opens)
    rw [Raw.codeEndAt, if_neg hcategory, width_append, ← Nat.add_assoc]
    rw [claimsAt_cons (literal?_not_plain opens)] at hc
    rcases List.mem_cons.mp hc with rfl | hc
    · exact ⟨fun heq ↦ absurd heq hcategory, fun _ ↦ le_codeEndAt _ pieces⟩
    · exact ih hc
  | @comment text closed mark =>
    rw [claimsAt_cons (by simp), claimsAt, List.mem_singleton] at hc
    rw [hc, Raw.codeEndAt]
    exact ⟨fun _ ↦ ⟨rfl, rfl⟩, fun hne ↦ absurd rfl hne⟩
  | @code body rest category pieces calm plain _ ih =>
    have hcategory := of_decide_eq_false (not_comment_of_not_region plain)
    rw [Raw.codeEndAt, if_neg hcategory, width_append, ← Nat.add_assoc]
    rw [claimsAt] at hc
    split at hc
    · exact ih hc
    · rcases List.mem_cons.mp hc with rfl | hc
      · exact ⟨fun heq ↦ absurd heq hcategory, fun _ ↦ le_codeEndAt _ pieces⟩
      · exact ih hc

end Raw

/-- Classification of a text in markup goes right, with these claims: each is granted at once, they
have characters, lie in the text and keep apart, and only the comment reaches beyond the code. -/
structure Classification.Faultless (text : List Char) (claims : List Claim) : Prop where
  granted : Classification.claims text = .ok claims
  length_pos : ∀ c ∈ claims, 0 < c.length
  stop_le : ∀ c ∈ claims, c.stop ≤ text.length
  apart : claims.Pairwise Claim.Apart
  comment : ∀ c ∈ claims, c.category = .comment → c.start = codeEnd text ∧ c.stop = text.length
  code : ∀ c ∈ claims, c.category ≠ .comment → c.stop ≤ codeEnd text
  not_plain : ∀ c ∈ claims, c.category ≠ .plain

theorem Classification.faultless_escapeList (raw : List Char) :
    ∃ claims, Faultless (escapeList raw) claims := by
  obtain ⟨claims, hclaims, hperm⟩ := Raw.claims_escapeList raw
  have hplaced := Raw.placed_claimsAt raw
  have hend : ∀ c ∈ Raw.claimsAt 0 (Raw.cut none raw), _ := fun c hc ↦
    (Raw.cuts_cut none raw).walked.claimsAt_codeEnd hc
  rw [← Raw.codeEnd_escapeList, Nat.zero_add] at hend
  refine ⟨claims, hclaims, ?_, ?_, ?_, ?_, ?_, ?_⟩
  · exact fun c hc ↦ hplaced.length_pos c (hperm.mem_iff.mp hc)
  · exact fun c hc ↦ hplaced.stop_le c (hperm.mem_iff.mp hc)
  · exact (hperm.pairwise_iff Claim.Apart.symm).mpr hplaced.pairwise
  · exact fun c hc ↦ (hend c (hperm.mem_iff.mp hc)).1
  · exact fun c hc ↦ (hend c (hperm.mem_iff.mp hc)).2
  · exact fun c hc ↦ Raw.not_plain_of_mem_claimsAt (hperm.mem_iff.mp hc)

namespace Raw

theorem map_span_plainPiece {raw : String} (h : raw ≠ "") :
    (plainPiece raw.toList).map Piece.span = [⟨.plain, escape raw⟩] := by
  have hraw : raw.toList.isEmpty = false := by
    rw [List.isEmpty_eq_false_iff, ne_eq, String.toList_eq_nil_iff]
    exact h
  rw [plainPiece, hraw]
  rfl

theorem map_span_piecesOf (config : Config) (raw : String) :
    (piecesOf config raw.toList).map Piece.span =
      if config.maxLineLength.any (· < raw.length) then [⟨.plain, escape raw⟩]
      else (joinFrom [] (cut none raw.toList)).map Piece.span := by
  rw [piecesOf]
  cases config.maxLineLength with
  | none => rfl
  | some limit =>
    simp only [Option.any_some, decide_eq_true_eq, String.length_toList]
    split
    · rename_i hlimit
      refine map_span_plainPiece ?_
      rintro rfl
      exact absurd hlimit (Nat.not_lt_zero limit)
    · rfl

end Raw

/-- Every line of every snippet is classified without a fault, under every configuration. -/
theorem Document.ofSource_faultless (config : Config) (source : String) :
    (∀ (raw : String) (lineno : Int), ∃ claims spans,
      Classification.Faultless (escapeList raw.toList) claims ∧
      Classification.spans? (escapeList raw.toList) = .ok spans ∧
      (Line.ofSource config raw lineno).value =
        ⟨if config.maxLineLength.any (· < raw.length) then [⟨.plain, escape raw⟩] else spans,
          lineno⟩) ∧
    ∃ raws : List String,
      "\n".intercalate raws = (if config.trimSnippet then Text.trim source else source) ∧
      List.Forall₂ (fun line raw ↦ line = (Line.ofSource config raw line.lineno).value)
        (Document.ofSource config source).value.lines raws := by
  refine ⟨fun raw lineno ↦ ?_, (Feed.ofSource config source).lines, Feed.intercalate_lines _, ?_⟩
  · obtain ⟨claims, hfaultless⟩ := Classification.faultless_escapeList raw.toList
    refine ⟨claims, _, hfaultless, Raw.spans?_escapeList raw.toList, ?_⟩
    rw [Line.ofSource_value, Raw.map_span_piecesOf]
  · rw [ofSource_lines]
    refine forall₂_zipIdx (R := fun line raw ↦ line = (Line.ofSource config raw line.lineno).value)
      (f := fun raw n ↦ (Line.ofSource config raw n).value) (fun raw n ↦ ?_) _ _
    rw [Line.ofSource_lineno]

end ScriptSpans
