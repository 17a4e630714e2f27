import ScriptSpans.Proofs.Line.Passes

namespace ScriptSpans.Raw

open Lexicon Markup Region Angle

theorem not_plain_of_mem_claimsAt {position : Nat} {pieces : List Piece} {c : Claim}
    (h : c ∈ claimsAt position pieces) : c.category ≠ .plain := by
  induction pieces generalizing position with
  | nil => cases h
  | cons piece later ih =>
    rw [claimsAt] at h
    split at h
    · exact ih h
    · rename_i hplain
      rcases List.mem_cons.mp h with rfl | h
      · exact hplain
      · exact ih h

theorem placed_claimsAt (raw : List Char) :
    Placed (escapeList raw).length (claimsAt 0 (cut none raw)) where
  pairwise := (claimsAt_pairwise 0 _).imp .inl
  stop_le := by
    intro c hc
    have hstop := (claimsAt_bounds hc).2
    rwa [(cuts_cut none raw).flatMap_chars, Nat.zero_add] at hstop
  length_pos := fun c hc ↦ claimsAt_length_pos (cuts_cut none raw).chars_ne_nil hc

theorem rank_lt_of_isRegion (c : Category) (h : c.isRegion) : c.rank < 4 := by
  cases c <;> first | decide | cases h

theorem isRegion_of_rank_lt {c : Category} (h : c.rank < 4) : c.isRegion := by
  revert h
  cases c <;> decide

theorem regions_perm (claims : List Claim) :
    ((claims.filter (fun c ↦ c.category.isLiteral)).reverse ++
      (claims.filter (fun c ↦ c.category = .comment)).reverse).Perm
        (claims.filter (fun c ↦ c.category.rank < 4)) := by
  refine ((List.reverse_perm _).append (List.reverse_perm _)).trans ?_
  have hperm := List.filter_append_perm (fun c : Claim ↦ c.category.isLiteral)
    (claims.filter (fun c ↦ c.category.rank < 4))
  rw [List.filter_filter, List.filter_filter] at hperm
  have hliterals : claims.filter (fun c ↦ c.category.isLiteral) =
      claims.filter (fun c ↦ c.category.isLiteral && decide (c.category.rank < 4)) :=
    List.filter_congr (fun c _ ↦ by cases c.category <;> rfl)
  have hcomments : claims.filter (fun c ↦ c.category = .comment) =
      claims.filter (fun c ↦ !c.category.isLiteral && decide (c.category.rank < 4)) :=
    List.filter_congr (fun c _ ↦ by cases c.category <;> rfl)
  rwa [hliterals, hcomments]

theorem grant_regions (raw : List Char) :
    ∃ commented regions, (comment (escapeList raw)).foldlM Ownership.grant
        (Ownership.free (escapeList raw).length) = .ok commented ∧
      (literals (escapeList raw)).foldlM Ownership.grant commented = .ok regions ∧
      Granted (escapeList raw).length (claimsAt 0 (cut none raw)) 4 regions := by
  have hplaced := placed_claimsAt raw
  rw [comment_escapeList, literals_escapeList]
  have hcomments := hplaced.filter (fun c ↦ c.category = .comment)
  have hliterals := hplaced.filter (fun c ↦ c.category.isLiteral)
  obtain ⟨commented, hcommented, hsound, hclaims⟩ := Ownership.grant_all_ok
    (Ownership.free_sound (escapeList raw).length) hcomments.pairwise hcomments.stop_le
      (by simp [Ownership.free])
  have happart : ∀ c ∈ (claimsAt 0 (cut none raw)).filter (fun c ↦ c.category.isLiteral),
      ∀ d ∈ commented.claims, c.Apart d := by
    intro c hc d hd
    rw [hclaims] at hd
    simp only [Ownership.free, List.append_nil, List.mem_reverse, List.mem_filter,
      decide_eq_true_eq] at hc hd
    refine hplaced.apart hc.1 hd.1 ?_
    rintro rfl
    rw [hd.2] at hc
    cases hc.2
  obtain ⟨regions, hregions, hregionsound, hregionclaims⟩ :=
    Ownership.grant_all_ok hsound hliterals.pairwise hliterals.stop_le happart
  refine ⟨commented, regions, hcommented, hregions, hregionsound, ?_⟩
  rw [hregionclaims, hclaims, Ownership.free, List.append_nil]
  exact regions_perm _

theorem surroundings_of_granted {raw : List Char} {regions : Ownership}
    (h : Granted (escapeList raw).length (claimsAt 0 (cut none raw)) 4 regions) :
    Surroundings regions.isOwned (codeEnd (escapeList raw)) 0 (cut none raw) where
  owned := by
    intro q _
    rw [h.sound.owned_iff]
    constructor
    · rintro ⟨c, hc, hcovers⟩
      obtain ⟨hc, hrank⟩ := h.mem_iff.mp hc
      exact ⟨c, hc, isRegion_of_rank_lt hrank, hcovers⟩
    · rintro ⟨c, hc, hregion, hcovers⟩
      exact ⟨c, h.mem_iff.mpr ⟨hc, rank_lt_of_isRegion _ hregion⟩, hcovers⟩
  limit_eq := codeEnd_escapeList raw

theorem filter_rank_claimsAt (position : Nat) (pieces : List Piece) :
    (claimsAt position pieces).filter (fun c ↦ c.category.rank < 9) = claimsAt position pieces := by
  refine List.filter_eq_self.mpr (fun c hc ↦ ?_)
  have hplain := not_plain_of_mem_claimsAt hc
  revert hplain
  cases c.category <;> decide

/-- No claim on a line goes wrong, and those that are made are the claims of the pieces. -/
theorem classify_escapeList (raw : List Char) :
    ∃ slate, (Slate.blank.put (escapeList raw)).classify = .ok slate ∧ slate.text = escapeList raw ∧
      slate.ownership.claims.Perm (claimsAt 0 (cut none raw)) := by
  have hplaced := placed_claimsAt raw
  obtain ⟨commented, regions, hcommented, hregions, hgranted⟩ := grant_regions raw
  have htable : Shows regions.isOwned (codeEnd (escapeList raw)) 0
      (closing regions (codeEnd (escapeList raw)) (escapeList raw)) raw := rfl
  have hwords := settles_scan (cuts_cut none raw) (surroundings_of_granted hgranted) htable rfl none
  have hlow : ∀ n, 4 ≤ n → ∀ c : Category, c.isRegion → c.rank < n :=
    fun n hn c hc ↦ Nat.lt_of_lt_of_le (rank_lt_of_isRegion c hc) hn
  obtain ⟨o5, h5, g5⟩ :=
    hgranted.pass keyword_answers hplaced hwords (hlow 4 (by decide)) (by decide)
  obtain ⟨o6, h6, g6⟩ := g5.pass typeName_answers hplaced hwords (hlow 5 (by decide)) (by decide)
  obtain ⟨o7, h7, g7⟩ := g6.pass number_answers hplaced hwords (hlow 6 (by decide)) (by decide)
  obtain ⟨o9, h9, g9⟩ := g7.pass callOrKey_answers hplaced hwords (hlow 7 (by decide)) (by decide)
  rw [literals] at hregions
  have hcodeEnd : (commentStart? 0 0 (escapeList raw)).getD (escapeList raw).length =
      codeEnd (escapeList raw) := rfl
  refine ⟨⟨escapeList raw, codeEnd (escapeList raw), o9, Word.ofText regions (escapeList raw)⟩, ?_,
    rfl, ?_⟩
  · simp only [Slate.classify, Slate.claimComment, Slate.claimLiterals, Slate.grantAll, Slate.put,
      Slate.collectWords, Slate.pass, bind, Except.bind, pure, Except.pure, hcodeEnd, hcommented,
      hregions, Rule.all, List.foldlM_cons, List.foldlM_nil, Word.ofText, h5, h6, h7, h9]
  · rw [← filter_rank_claimsAt]
    exact g9.perm

theorem claims_escapeList (raw : List Char) :
    ∃ claims, Classification.claims (escapeList raw) = .ok claims ∧
      claims.Perm (claimsAt 0 (cut none raw)) := by
  obtain ⟨slate, hslate, -, hperm⟩ := classify_escapeList raw
  refine ⟨slate.ownership.claims, ?_, hperm⟩
  rw [Classification.claims, hslate]
  rfl

theorem mergeSort_claims {claims ordered : List Claim} (hperm : claims.Perm ordered)
    (hordered : ordered.Pairwise (fun a b ↦ a.start < b.start)) :
    claims.mergeSort (fun a b ↦ decide (a.start ≤ b.start)) = ordered := by
  have htrans : ∀ a b c : Claim, decide (a.start ≤ b.start) → decide (b.start ≤ c.start) →
      decide (a.start ≤ c.start) := by
    intro a b c hab hbc
    exact decide_eq_true (Nat.le_trans (of_decide_eq_true hab) (of_decide_eq_true hbc))
  have htotal : ∀ a b : Claim, decide (a.start ≤ b.start) || decide (b.start ≤ a.start) := by
    intro a b
    simpa using Nat.le_total a.start b.start
  have hsorted := List.pairwise_mergeSort htrans htotal claims
  refine List.Perm.eq_of_pairwise (fun a b ha hb hab hba ↦ ?_) hsorted
    (hordered.imp (fun h ↦ decide_eq_true (Nat.le_of_lt h))) ((List.mergeSort_perm _ _).trans hperm)
  -- sorting leaves open only how claims with one start are ordered, and there are none
  refine Classical.byContradiction fun hne ↦ ?_
  have hstart := Nat.le_antisymm (of_decide_eq_true hab) (of_decide_eq_true hba)
  have hapart : ordered.Pairwise (fun a b ↦ a.start ≠ b.start) := hordered.imp Nat.ne_of_lt
  have ha' := hperm.mem_iff.mp ((List.mergeSort_perm _ _).mem_iff.mp ha)
  exact rel_of_pairwise Ne.symm hapart ha' hb hne hstart

def Piece.span (piece : Piece) : Span := ⟨piece.category, String.ofList (escapeList piece.chars)⟩

def plainPiece (gap : List Char) : List Piece := if gap.isEmpty then [] else [⟨.plain, gap⟩]

/-- The pieces after a run of plain characters, with plain neighbours made one. -/
def joinFrom (gap : List Char) : List Piece → List Piece
  | [] => plainPiece gap
  | piece :: later =>
    if piece.category = .plain then joinFrom (gap ++ piece.chars) later
    else plainPiece gap ++ piece :: joinFrom [] later

/-- A piece that is not plain keeps what is before it apart from what is after it. -/
theorem joinFrom_append (gap : List Char) (pieces : List Piece) {piece : Piece}
    (h : piece.category ≠ .plain) (later : List Piece) :
    joinFrom gap (pieces ++ piece :: later) =
      joinFrom gap pieces ++ piece :: joinFrom [] later := by
  induction pieces generalizing gap with
  | nil => rw [List.nil_append, joinFrom, joinFrom, if_neg h]
  | cons first pieces ih =>
    rw [List.cons_append, joinFrom, joinFrom]
    split
    · exact ih _
    · rw [ih, List.append_assoc, List.cons_append]

theorem plainSpan_escapeList (gap : List Char) :
    Classification.plainSpan (escapeList gap) = (plainPiece gap).map Piece.span := by
  cases gap with
  | nil => rfl
  | cons c rest =>
    have hne : (escapeList (c :: rest)).isEmpty = false := by
      rw [List.isEmpty_eq_false_iff, ← List.length_pos_iff]
      exact width_pos (List.cons_ne_nil c rest)
    rw [Classification.plainSpan, hne]
    rfl

theorem fill_claimsAt (position : Nat) (gap : List Char) (pieces : List Piece) :
    Classification.fill position (escapeList (gap ++ pieces.flatMap Piece.chars))
      (claimsAt (position + width gap) pieces) = (joinFrom gap pieces).map Piece.span := by
  induction pieces generalizing position gap with
  | nil =>
    rw [List.flatMap_nil, List.append_nil]
    exact plainSpan_escapeList gap
  | cons piece later ih =>
    by_cases hplain : piece.category = .plain
    · rw [claimsAt, if_pos hplain, joinFrom, if_pos hplain, List.flatMap_cons, ← List.append_assoc,
        Nat.add_assoc, ← width_append]
      exact ih position (gap ++ piece.chars)
    · have hrest := ih (position + width gap + width piece.chars) []
      rw [width_nil, Nat.add_zero, List.nil_append] at hrest
      have hgap : position + width gap - position = (escapeList gap).length :=
        Nat.add_sub_cancel_left ..
      have hown : width piece.chars = (escapeList piece.chars).length := rfl
      rw [claimsAt, if_neg hplain, joinFrom, if_neg hplain, List.flatMap_cons, Classification.fill,
        List.map_append, List.map_cons, ← hrest, ← plainSpan_escapeList]
      simp only [escapeList_append, hgap, List.splitAt_eq, List.take_left, List.drop_left,
        hown, Claim.stop]
      rfl

theorem slate_escapeList (raw : List Char) :
    ∃ slate, (Slate.blank.put (escapeList raw)).classify = .ok slate ∧
      slate.spans = (joinFrom [] (cut none raw)).map Piece.span := by
  obtain ⟨slate, hslate, htext, hperm⟩ := classify_escapeList raw
  have hplaced := placed_claimsAt raw
  have hordered : (claimsAt 0 (cut none raw)).Pairwise (fun a b ↦ a.start < b.start) := by
    refine (claimsAt_pairwise 0 (cut none raw)).imp_of_mem (fun {a b} ha _ hab ↦ ?_)
    have hpos := hplaced.length_pos a ha
    simp only [Claim.stop] at hab
    omega
  have hfill := fill_claimsAt 0 [] (cut none raw)
  rw [List.nil_append, (cuts_cut none raw).flatMap_chars, width_nil] at hfill
  refine ⟨slate, hslate, ?_⟩
  rw [Slate.spans, htext, mergeSort_claims hperm hordered]
  exact hfill

theorem spans?_escapeList (raw : List Char) :
    Classification.spans? (escapeList raw) = .ok ((joinFrom [] (cut none raw)).map Piece.span) := by
  obtain ⟨slate, hslate, hspans⟩ := slate_escapeList raw
  rw [Classification.spans?, hslate]
  exact congrArg Except.ok hspans

end ScriptSpans.Raw
