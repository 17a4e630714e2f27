import ScriptSpans.Proofs.Line.Cut
import ScriptSpans.Proofs.Markup.Escape

namespace ScriptSpans.Raw

open Markup

def claimsAt (position : Nat) : List Piece → List Claim
  | [] => []
  | piece :: later =>
    if piece.category = .plain then claimsAt (position + width piece.chars) later
    else ⟨position, width piece.chars, piece.category⟩ :: claimsAt
      (position + width piece.chars) later

theorem claimsAt_cons {piece : Piece} (h : piece.category ≠ .plain) (position : Nat)
    (later : List Piece) : claimsAt position (piece :: later) =
      ⟨position, width piece.chars, piece.category⟩ :: claimsAt
        (position + width piece.chars) later := by
  simp [claimsAt, h]

theorem claimsAt_bounds {position : Nat} {pieces : List Piece} {c : Claim}
    (h : c ∈ claimsAt position pieces) :
    position ≤ c.start ∧ c.stop ≤ position + width (pieces.flatMap Piece.chars) := by
  induction pieces generalizing position with
  | nil => cases h
  | cons piece later ih =>
    rw [List.flatMap_cons, width_append]
    by_cases hplain : piece.category = .plain
    · rw [claimsAt, if_pos hplain] at h
      have hc := ih h
      omega
    · rw [claimsAt, if_neg hplain] at h
      rcases List.mem_cons.mp h with rfl | h
      · simp only [Claim.stop]
        omega
      · have hc := ih h
        omega

theorem claimsAt_pairwise (position : Nat) (pieces : List Piece) :
    (claimsAt position pieces).Pairwise (fun a b ↦ a.stop ≤ b.start) := by
  induction pieces generalizing position with
  | nil => exact .nil
  | cons piece later ih =>
    by_cases hplain : piece.category = .plain
    · rw [claimsAt, if_pos hplain]
      exact ih _
    · rw [claimsAt, if_neg hplain]
      exact .cons (fun c hc ↦ (claimsAt_bounds hc).1) (ih _)

theorem claimsAt_length_pos {pieces : List Piece} (h : ∀ piece ∈ pieces, piece.chars ≠ [])
    {position : Nat} {c : Claim} (hc : c ∈ claimsAt position pieces) : 0 < c.length := by
  induction pieces generalizing position with
  | nil => cases hc
  | cons piece later ih =>
    obtain ⟨hpiece, hlater⟩ := List.forall_mem_cons.mp h
    by_cases hplain : piece.category = .plain
    · rw [claimsAt, if_pos hplain] at hc
      exact ih hlater hc
    · rw [claimsAt, if_neg hplain] at hc
      rcases List.mem_cons.mp hc with rfl | hc
      · exact width_pos hpiece
      · exact ih hlater hc

section filter

variable {q : Category → Bool} {piece : Piece} (position : Nat) (later : List Piece)

theorem filter_claimsAt_of_not (h : q piece.category = false) :
    (claimsAt position (piece :: later)).filter (fun c ↦ q c.category) =
      (claimsAt (position + width piece.chars) later).filter (fun c ↦ q c.category) := by
  by_cases hplain : piece.category = .plain
  · rw [claimsAt, if_pos hplain]
  · rw [claimsAt, if_neg hplain, List.filter_cons_of_neg (by simp [h])]

theorem filter_claimsAt_of (h : q piece.category) (hplain : piece.category ≠ .plain) :
    (claimsAt position (piece :: later)).filter (fun c ↦ q c.category) =
      ⟨position, width piece.chars, piece.category⟩ ::
        (claimsAt (position + width piece.chars) later).filter (fun c ↦ q c.category) := by
  rw [claimsAt, if_neg hplain, List.filter_cons_of_pos (by simp [h])]

end filter

end ScriptSpans.Raw
