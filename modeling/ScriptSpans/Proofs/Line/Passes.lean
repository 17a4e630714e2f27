import ScriptSpans.Proofs.Line.Rules

namespace ScriptSpans.Raw

open Lexicon Markup Region Angle

theorem apply_none {rule : Rule} {o : Ownership} {w : Word} (h : rule o w = .ok none) :
    rule.apply o w = .ok o := by
  rw [Rule.apply, h]

theorem apply_some {rule : Rule} {o : Ownership} {w : Word} {c : Claim}
    (h : rule o w = .ok (some c)) :
    rule.apply o w = o.grant c := by
  rw [Rule.apply, h]

theorem foldlM_skip {rule : Rule} {o : Ownership} {p : Word → Bool} {w : Word} (words : List Word)
    (h : p w → rule o w = .ok none) :
    ((w :: words).filter p).foldlM rule.apply o = (words.filter p).foldlM rule.apply o := by
  cases hp : p w with
  | false => rw [List.filter_cons_of_neg (by simp [hp])]
  | true =>
    rw [List.filter_cons_of_pos hp, List.foldlM_cons, apply_none (h hp)]
    rfl

def ranked (low high : Nat) (claims : List Claim) : List Claim :=
  claims.filter (fun c ↦ low ≤ c.category.rank ∧ c.category.rank < high)

section pass

variable {closing : Array Bool} {rule : Rule} {low high size : Nat} {o start : Ownership}

/-- What holds while a rule goes through words that settle on `claims`, after the claim `last`:
nothing in the way of the claims to come, unless a rank before `low` made them. -/
structure Midway (low high size : Nat) (start o : Ownership) (last : Option Claim)
    (claims : List Claim) :
    Prop where
  sound : o.Sound size
  subset : start.claims ⊆ o.claims
  early : ∀ c ∈ claims, c.category.rank < low → c ∈ start.claims
  apart : ∀ c ∈ claims, low ≤ c.category.rank → ∀ d ∈ o.claims, c.Apart d
  last_own : ∀ c, last = some c → low ≤ c.category.rank → c.category.rank < high → c ∈ o.claims

theorem Midway.tail {last : Option Claim} {c : Claim} {claims : List Claim}
    (h : Midway low high size start o last (c :: claims))
    (hown : low ≤ c.category.rank → c.category.rank < high → c ∈ o.claims) :
    Midway low high size start o (some c) claims where
  sound := h.sound
  subset := h.subset
  early := fun d hd ↦ h.early d (List.mem_cons_of_mem _ hd)
  apart := fun d hd ↦ h.apart d (List.mem_cons_of_mem _ hd)
  last_own := by
    rintro d ⟨rfl⟩
    exact hown

theorem Midway.grant {last : Option Claim} {c : Claim} {claims : List Claim} {granted : Ownership}
    (h : Midway low high size start o last (c :: claims)) (hapart : ∀ d ∈ claims, c.Apart d)
    (hsound : granted.Sound size) (hclaims : granted.claims = c :: o.claims) :
    Midway low high size start granted (some c) claims where
  sound := hsound
  subset := by
    rw [hclaims]
    exact fun d hd ↦ List.mem_cons_of_mem _ (h.subset hd)
  early := fun d hd ↦ h.early d (List.mem_cons_of_mem _ hd)
  apart := by
    intro d hd hlow e he
    rw [hclaims] at he
    rcases List.mem_cons.mp he with rfl | he
    · exact (hapart d hd).symm
    · exact h.apart d (List.mem_cons_of_mem _ hd) hlow e he
  last_own := by
    rintro d ⟨rfl⟩ _ _
    rw [hclaims]
    exact List.mem_cons_self

/-- What a rule's way through words comes to that settle on `claims`: it adds the claims of its own
ranks. -/
def Adds (rule : Rule) (low high size : Nat) (start o : Ownership) (words : List Word)
    (claims : List Claim) :
    Prop :=
  ∃ granted, (words.filter (fun w ↦ !start.isOwned w.start)).foldlM rule.apply o = .ok granted ∧
    granted.Sound size ∧ granted.claims = (ranked low high claims).reverse ++ o.claims

section adds

variable {w : Word} {c : Claim} {words : List Word} {claims : List Claim}

theorem Adds.nil (h : o.Sound size) : Adds rule low high size start o [] [] := ⟨o, rfl, h, rfl⟩

theorem Adds.skip (h : Adds rule low high size start o words claims)
    (hskip : start.isOwned w.start = false → rule o w = .ok none) :
    Adds rule low high size start o (w :: words) claims := by
  obtain ⟨granted, hgranted, hrest⟩ := h
  refine ⟨granted, ?_, hrest⟩
  rw [foldlM_skip words (fun hfree ↦ hskip (by simpa using hfree)), hgranted]

theorem Adds.other (h : Adds rule low high size start o words claims)
    (hrank : ¬ (low ≤ c.category.rank ∧ c.category.rank < high)) :
    Adds rule low high size start o words (c :: claims) := by
  obtain ⟨granted, hgranted, hsound, hclaims⟩ := h
  refine ⟨granted, hgranted, hsound, ?_⟩
  rw [hclaims, ranked, ranked, List.filter_cons_of_neg (by simpa using hrank)]

theorem Adds.grant {first : Ownership} (h : Adds rule low high size start first words claims)
    (hlow : low ≤ c.category.rank) (hhigh : c.category.rank < high)
    (hfree : start.isOwned w.start = false) (hanswer : rule o w = .ok (some c))
    (hfirst : o.grant c = .ok first) (hclaims : first.claims = c :: o.claims) :
    Adds rule low high size start o (w :: words) (c :: claims) := by
  obtain ⟨granted, hgranted, hsound, hgrantedclaims⟩ := h
  refine ⟨granted, ?_, hsound, ?_⟩
  · rw [List.filter_cons_of_pos (by simp [hfree]), List.foldlM_cons, apply_some hanswer, hfirst]
    exact hgranted
  · rw [hgrantedclaims, hclaims, ranked, ranked, List.filter_cons_of_pos (by simp [hlow, hhigh]),
      List.reverse_cons, List.append_assoc, List.singleton_append]

end adds

theorem Settles.adds (hrule : Answers closing rule low high) (hstart : start.Sound size)
    {last : Option Claim} {words : List Word} {claims : List Claim}
    (hwords : Settles closing last words claims) (hpairwise : claims.Pairwise Claim.Apart)
    (hstop : ∀ c ∈ claims, c.stop ≤ size) (hpos : ∀ c ∈ claims, 0 < c.length)
    (h : Midway low high size start o last claims) :
    Adds rule low high size start o words claims := by
  induction hwords generalizing o with
  | nil => exact .nil h.sound
  | @absorbed c w words claims number covers decimal _ ih =>
    refine (ih hpairwise hstop hpos h).skip (fun _ ↦ hrule.absorbed decimal (fun hlow hhigh ↦ ?_))
    rw [← number] at hlow hhigh
    exact (h.sound.owned_iff _).mpr ⟨c, h.last_own c rfl hlow hhigh, covers⟩
  | @unclaimed last w words claims inside silent _ ih =>
    have hanswer := hrule.answer (o := o) inside (fun c hc ↦ by rw [silent] at hc; cases hc)
    rw [silent] at hanswer
    exact (ih hpairwise hstop hpos h).skip (fun _ ↦ hanswer)
  | @claimed last c w words claims inside speaks _ ih =>
    obtain ⟨hc, hclaims⟩ := List.pairwise_cons.mp hpairwise
    obtain ⟨hcstop, hstop⟩ := List.forall_mem_cons.mp hstop
    obtain ⟨hcpos, hpos⟩ := List.forall_mem_cons.mp hpos
    have hcovers : c.Covers w.start := by
      rw [← verdict_start speaks]
      exact ⟨Nat.le_refl _, Nat.lt_add_of_pos_right hcpos⟩
    -- a claim of an earlier pass is on the line already, and one of a later pass is left alone
    by_cases hlow : low ≤ c.category.rank
    · have hapart := h.apart c List.mem_cons_self hlow
      have hfree : o.isOwned w.start = false :=
        h.sound.not_owned (fun d hd ↦ (hapart d hd).not_covers hcovers)
      have hstartfree : start.isOwned w.start = false :=
        hstart.not_owned (fun d hd ↦ (hapart d (h.subset hd)).not_covers hcovers)
      have hanswer := hrule.answer (o := o) inside (fun d hd ↦ by
        rw [speaks] at hd
        cases hd
        exact ⟨hlow, hfree⟩)
      rw [speaks] at hanswer
      by_cases hhigh : c.category.rank < high
      · rw [Option.filter_some_pos (by simpa using hhigh)] at hanswer
        obtain ⟨first, hfirst, hsound, hfirstclaims⟩ := Ownership.grant_ok h.sound hcstop hapart
        have hrest := ih hclaims hstop hpos (h.grant hc hsound hfirstclaims)
        exact hrest.grant hlow hhigh hstartfree hanswer hfirst hfirstclaims
      · rw [Option.filter_some_neg (by simpa using hhigh)] at hanswer
        have hrest := ih hclaims hstop hpos (h.tail (fun _ hlt ↦ absurd hlt hhigh))
        exact (hrest.skip (fun _ ↦ hanswer)).other (fun hrank ↦ hhigh hrank.2)
    · have hearly := h.early c List.mem_cons_self (Nat.lt_of_not_le hlow)
      have howned : start.isOwned w.start := (hstart.owned_iff _).mpr ⟨c, hearly, hcovers⟩
      have hrest := ih hclaims hstop hpos (h.tail (fun hle ↦ absurd hle hlow))
      exact (hrest.skip (fun hfree ↦ absurd howned (by simp [hfree]))).other
        (fun hrank ↦ hlow hrank.1)

structure Placed (size : Nat) (claims : List Claim) : Prop where
  pairwise : claims.Pairwise Claim.Apart
  stop_le : ∀ c ∈ claims, c.stop ≤ size
  length_pos : ∀ c ∈ claims, 0 < c.length

theorem Placed.apart {claims : List Claim} (h : Placed size claims) {c d : Claim} (hc : c ∈ claims)
    (hd : d ∈ claims) (hne : c ≠ d) : c.Apart d :=
  rel_of_pairwise Claim.Apart.symm h.pairwise hc hd hne

theorem Placed.filter {claims : List Claim} (h : Placed size claims) (p : Claim → Bool) :
    Placed size (claims.filter p) where
  pairwise := h.pairwise.filter p
  stop_le := fun c hc ↦ h.stop_le c (List.mem_filter.mp hc).1
  length_pos := fun c hc ↦ h.length_pos c (List.mem_filter.mp hc).1

/-- Of the claims of a line, exactly those with a rank before `rank` are granted. -/
structure Granted (size : Nat) (claims : List Claim) (rank : Nat) (o : Ownership) : Prop where
  sound : o.Sound size
  perm : o.claims.Perm (claims.filter (fun c ↦ c.category.rank < rank))

theorem Granted.mem_iff {claims : List Claim} {rank : Nat}
    (h : Granted size claims rank o) {c : Claim} :
    c ∈ o.claims ↔ c ∈ claims ∧ c.category.rank < rank := by
  rw [h.perm.mem_iff, List.mem_filter, decide_eq_true_eq]

theorem ranked_perm (hle : low ≤ high) (claims : List Claim) :
    (ranked low high claims ++ claims.filter (fun c ↦ c.category.rank < low)).Perm
      (claims.filter (fun c ↦ c.category.rank < high)) := by
  have hperm := List.filter_append_perm (fun c : Claim ↦ low ≤ c.category.rank)
    (claims.filter (fun c ↦ c.category.rank < high))
  rw [List.filter_filter, List.filter_filter] at hperm
  have hfirst : ranked low high claims =
      claims.filter (fun c ↦ decide (low ≤ c.category.rank) && decide (c.category.rank < high)) :=
    List.filter_congr (fun c _ ↦ by simp)
  have hsecond : claims.filter (fun c ↦ c.category.rank < low) =
      claims.filter (fun c ↦ !decide (low ≤ c.category.rank) &&
        decide (c.category.rank < high)) := by
    refine List.filter_congr (fun c _ ↦ ?_)
    rw [← decide_not, ← Bool.decide_and, decide_eq_decide]
    omega
  rwa [hfirst, hsecond]

theorem Granted.pass (hrule : Answers closing rule low high) {claims : List Claim}
    (hplaced : Placed size claims) {words : List Word}
    (hwords : Settles closing none words (claims.filter (fun c ↦ !c.category.isRegion)))
    (h : Granted size claims low o) (hregion : ∀ c : Category, c.isRegion → c.rank < low)
    (hle : low ≤ high) :
    ∃ granted, Rule.pass words o rule = .ok granted ∧ Granted size claims high granted := by
  have hcode := hplaced.filter (fun c ↦ !c.category.isRegion)
  have hmidway : Midway low high size o o none (claims.filter (fun c ↦ !c.category.isRegion)) := {
    sound := h.sound
    subset := fun _ hd ↦ hd
    early := fun c hc hlt ↦ h.mem_iff.mpr ⟨(List.mem_filter.mp hc).1, hlt⟩
    apart := by
      intro c hc hlow d hd
      obtain ⟨hd, hdlow⟩ := h.mem_iff.mp hd
      refine hplaced.apart (List.mem_filter.mp hc).1 hd ?_
      rintro rfl
      omega
    last_own := by simp }
  obtain ⟨granted, hgranted, hsound, hclaims⟩ :=
    hwords.adds hrule h.sound hcode.pairwise hcode.stop_le hcode.length_pos hmidway
  refine ⟨granted, hgranted, hsound, ?_⟩
  have hranked :
      ranked low high (claims.filter (fun c ↦ !c.category.isRegion)) = ranked low high claims := by
    rw [ranked, List.filter_filter]
    refine List.filter_congr (fun c _ ↦ ?_)
    cases hc : c.category.isRegion with
    | false => simp
    | true =>
      have hlt := hregion c.category hc
      simp [Nat.not_le_of_lt hlt]
  rw [hclaims, hranked]
  exact ((List.reverse_perm _).append h.perm).trans (ranked_perm hle claims)

end pass

end ScriptSpans.Raw
