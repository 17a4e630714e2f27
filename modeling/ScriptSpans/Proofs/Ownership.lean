import ScriptSpans.Ownership

namespace ScriptSpans

def Claim.Covers (c : Claim) (position : Nat) : Prop := c.start ≤ position ∧ position < c.stop

def Claim.Apart (a b : Claim) : Prop := a.stop ≤ b.start ∨ b.stop ≤ a.start

theorem Claim.Apart.symm {a b : Claim} (h : a.Apart b) : b.Apart a := Or.symm h

theorem rel_of_pairwise {α : Type} {R : α → α → Prop} (hsymm : ∀ {a b}, R a b → R b a)
    {items : List α} (h : items.Pairwise R) {a b : α} (ha : a ∈ items) (hb : b ∈ items)
    (hne : a ≠ b) : R a b := by
  induction h with
  | nil => cases ha
  | cons hfirst _ ih =>
    rcases List.mem_cons.mp ha with rfl | hlater
    · exact hfirst b ((List.mem_cons.mp hb).resolve_left (Ne.symm hne))
    · rcases List.mem_cons.mp hb with rfl | hlater'
      · exact hsymm (hfirst a hlater)
      · exact ih hlater hlater'

theorem Claim.Apart.not_covers {a b : Claim} (h : a.Apart b) {position : Nat}
    (ha : a.Covers position) :
    ¬ b.Covers position := by
  simp only [Claim.Apart, Claim.Covers] at *
  omega

namespace Ownership

/-- The owners of a line of this size are the claims that were granted on it. -/
structure Sound (o : Ownership) (size : Nat) : Prop where
  size_eq : o.owners.size = size
  owned_iff : ∀ position, o.isOwned position ↔ ∃ c ∈ o.claims, c.Covers position

theorem free_sound (size : Nat) : (free size).Sound size where
  size_eq := Array.size_replicate
  owned_iff position := by
    have hfree : (free size).isOwned position = false := by
      rw [isOwned, owner?, free, Array.getElem?_replicate]
      split <;> rfl
    rw [hfree]
    simp [free]

theorem take_ok (category : Category) {owners : Array (Option Category)} {position count : Nat}
    (hfree : ∀ q, position ≤ q → q < position + count → owners[q]? = some none) :
    ∃ taken, take owners category position count = .ok taken ∧ taken.size = owners.size ∧
      ∀ q, taken[q]? = if position ≤ q ∧ q < position + count then some (some category) else
        owners[q]? := by
  induction count generalizing owners position with
  | zero =>
    refine ⟨owners, rfl, rfl, fun q ↦ ?_⟩
    rw [if_neg (by omega)]
  | succ count ih =>
    obtain ⟨hposition, hnone⟩ :=
      Array.getElem?_eq_some_iff.mp (hfree position (by omega) (by omega))
    have hrest : ∀ q, position + 1 ≤ q → q < position + 1 + count →
        (owners.set position (some category))[q]? = some none := by
      intro q hq hlt
      rw [Array.getElem?_set_ne hposition (by omega)]
      exact hfree q (by omega) (by omega)
    obtain ⟨taken, htaken, hsize, hget⟩ := ih hrest
    refine ⟨taken, ?_, ?_, fun q ↦ ?_⟩
    · rw [take, dif_pos hposition, hnone]
      exact htaken
    · rw [hsize, Array.size_set]
    · rw [hget, Array.getElem?_set]
      repeat' split
      all_goals first | rfl | omega

variable {o : Ownership} {size : Nat}

theorem Sound.get_of_not_owned (h : o.Sound size) {position : Nat} (hlt : position < size)
    (hfree : o.isOwned position = false) : o.owners[position]? = some none := by
  have hsome : position < o.owners.size := h.size_eq ▸ hlt
  rw [isOwned, owner?, Array.getElem?_eq_getElem hsome] at hfree
  rw [Array.getElem?_eq_getElem hsome]
  simpa using hfree

theorem Sound.not_owned (h : o.Sound size) {position : Nat}
    (hfree : ∀ d ∈ o.claims, ¬ d.Covers position) : o.isOwned position = false := by
  rw [Bool.eq_false_iff, ne_eq, h.owned_iff]
  exact fun ⟨d, hd, hcovers⟩ ↦ hfree d hd hcovers

theorem grant_ok (h : o.Sound size) {c : Claim} (hstop : c.stop ≤ size)
    (hapart : ∀ d ∈ o.claims, c.Apart d) :
    ∃ granted, o.grant c = .ok granted ∧ granted.Sound size ∧ granted.claims = c :: o.claims := by
  have hfree : ∀ q, c.start ≤ q → q < c.start + c.length → o.owners[q]? = some none := by
    intro q hq hlt
    refine h.get_of_not_owned (Nat.lt_of_lt_of_le hlt hstop) (h.not_owned (fun d hd ↦ ?_))
    exact (hapart d hd).not_covers ⟨hq, hlt⟩
  obtain ⟨taken, htaken, hsize, hget⟩ := take_ok c.category hfree
  refine ⟨⟨taken, c :: o.claims⟩, ?_, ⟨hsize.trans h.size_eq, fun q ↦ ?_⟩, rfl⟩
  · rw [grant, htaken]
    rfl
  · have hold := h.owned_iff q
    rw [isOwned, owner?] at hold ⊢
    simp only [hget, List.mem_cons, exists_eq_or_imp]
    by_cases hc : c.start ≤ q ∧ q < c.start + c.length
    · simp [hc, Claim.Covers, Claim.stop]
    · rw [if_neg hc, hold, or_iff_right]
      exact hc

theorem grant_all_ok (h : o.Sound size) {claims : List Claim}
    (hpairwise : claims.Pairwise Claim.Apart) (hstop : ∀ c ∈ claims, c.stop ≤ size)
    (hapart : ∀ c ∈ claims, ∀ d ∈ o.claims, c.Apart d) :
    ∃ granted, claims.foldlM grant o = .ok granted ∧ granted.Sound size ∧
      granted.claims = claims.reverse ++ o.claims := by
  induction claims generalizing o with
  | nil => exact ⟨o, rfl, h, rfl⟩
  | cons c claims ih =>
    obtain ⟨hc, hclaims⟩ := List.pairwise_cons.mp hpairwise
    obtain ⟨hcstop, hrest⟩ := List.forall_mem_cons.mp hstop
    obtain ⟨hcapart, hrestapart⟩ := List.forall_mem_cons.mp hapart
    obtain ⟨first, hfirst, hsound, hfirstclaims⟩ := grant_ok h hcstop hcapart
    obtain ⟨granted, hgranted, hgrantedsound, hgrantedclaims⟩ := ih hsound hclaims hrest (by
      intro d hd e he
      rw [hfirstclaims] at he
      rcases List.mem_cons.mp he with rfl | he
      · exact (hc d hd).symm
      · exact hrestapart d hd e he)
    refine ⟨granted, ?_, hgrantedsound, ?_⟩
    · rw [List.foldlM_cons, hfirst]
      exact hgranted
    · rw [hgrantedclaims, hfirstclaims, List.reverse_cons, List.append_assoc, List.singleton_append]

end Ownership

end ScriptSpans
