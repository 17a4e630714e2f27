import ScriptSpans.Proofs.Line.Verdicts

namespace ScriptSpans.Raw

open Lexicon

theorem firstIs_false {w : Word} {p q : Char → Bool} (h : w.firstIs p)
    (hpq : ∀ c, p c → q c = false) :
    w.firstIs q = false := by
  rw [Word.firstIs] at h ⊢
  cases hc : w.chars.head? with
  | none => rfl
  | some c =>
    rw [hc] at h
    exact hpq c h

theorem isUpper_iff {c : Char} : c.isUpper ↔ 65 ≤ c.toNat ∧ c.toNat ≤ 90 :=
  decide_eq_true_iff

theorem isLower_iff {c : Char} : c.isLower ↔ 97 ≤ c.toNat ∧ c.toNat ≤ 122 :=
  Bool.and_eq_true_iff.trans (and_congr decide_eq_true_iff decide_eq_true_iff)

theorem isDigit_iff {c : Char} : c.isDigit ↔ 48 ≤ c.toNat ∧ c.toNat ≤ 57 :=
  Bool.and_eq_true_iff.trans (and_congr decide_eq_true_iff decide_eq_true_iff)

theorem not_isDigit_of_isUpper (c : Char) (h : c.isUpper) : c.isDigit = false := by
  refine Bool.eq_false_iff.mpr fun hdigit ↦ ?_
  have hupper := isUpper_iff.mp h
  have hdecimal := isDigit_iff.mp hdigit
  omega

theorem not_isDigit_of_startsName (c : Char) (h : startsName c) : c.isDigit = false := by
  simp only [startsName, Bool.or_eq_true, decide_eq_true_eq] at h
  rcases h with (h | rfl) | rfl
  · refine Bool.eq_false_iff.mpr fun hdigit ↦ ?_
    have hlower := isLower_iff.mp h
    have hdecimal := isDigit_iff.mp hdigit
    omega
  · rfl
  · rfl

theorem not_isUpper_of_startsName (c : Char) (h : startsName c) : c.isUpper = false := by
  simp only [startsName, Bool.or_eq_true, decide_eq_true_eq] at h
  rcases h with (h | rfl) | rfl
  · refine Bool.eq_false_iff.mpr fun hupper ↦ ?_
    have hlower := isLower_iff.mp h
    have hcapital := isUpper_iff.mp hupper
    omega
  · rfl
  · rfl

theorem startsName_of_isKeyword {w : Word} (h : isKeyword w.chars) : w.firstIs startsName := by
  have hfirst : ∀ k ∈ keywords, k.toList.head?.any startsName := by decide
  have hname := hfirst _ (List.contains_iff_mem.mp h)
  rwa [String.toList_ofList] at hname

/-- What a word is to the rules: they look at its first character and whether it is reserved. -/
inductive Kind (w : Word) : Prop
  | reserved (keyword : isKeyword w.chars) (name : w.firstIs startsName)
      (upper : w.firstIs Char.isUpper = false) (digit : w.firstIs Char.isDigit = false)
  | name (keyword : isKeyword w.chars = false) (name : w.firstIs startsName)
      (upper : w.firstIs Char.isUpper = false) (digit : w.firstIs Char.isDigit = false)
  | capital (keyword : isKeyword w.chars = false) (name : w.firstIs startsName = false)
      (upper : w.firstIs Char.isUpper) (digit : w.firstIs Char.isDigit = false)
  | decimal (keyword : isKeyword w.chars = false) (name : w.firstIs startsName = false)
      (upper : w.firstIs Char.isUpper = false) (digit : w.firstIs Char.isDigit)
  | other (keyword : isKeyword w.chars = false) (name : w.firstIs startsName = false)
      (upper : w.firstIs Char.isUpper = false) (digit : w.firstIs Char.isDigit = false)

theorem kind (w : Word) : Kind w := by
  cases hname : w.firstIs startsName with
  | true =>
    have hupper := firstIs_false hname not_isUpper_of_startsName
    have hdigit := firstIs_false hname not_isDigit_of_startsName
    cases hkeyword : isKeyword w.chars with
    | true => exact .reserved hkeyword hname hupper hdigit
    | false => exact .name hkeyword hname hupper hdigit
  | false =>
    have hkeyword : isKeyword w.chars = false := by
      rw [Bool.eq_false_iff]
      exact fun hkeyword ↦ absurd (startsName_of_isKeyword hkeyword) (by simp [hname])
    cases hupper : w.firstIs Char.isUpper with
    | true => exact .capital hkeyword hname hupper (firstIs_false hupper not_isDigit_of_isUpper)
    | false =>
      cases hdigit : w.firstIs Char.isDigit with
      | true => exact .decimal hkeyword hname hupper hdigit
      | false => exact .other hkeyword hname hupper hdigit

section verdict

variable {closing : Array Bool} {w : Word}

theorem verdict_start {c : Claim} (h : verdict closing w = some c) : c.start = w.start := by
  rw [verdict] at h
  split at h <;> cases h
  rfl

theorem verdict_reserved (keyword : isKeyword w.chars) :
    verdict closing w = some (w.claim .keyword) := by
  simp [verdict, ofWord, keyword, Word.claim]

theorem verdict_name (keyword : isKeyword w.chars = false) (name : w.firstIs startsName)
    (upper : w.firstIs Char.isUpper = false) (digit : w.firstIs Char.isDigit = false) :
    verdict closing w =
      if Rule.follower? w = some '(' then some (w.claim .functionCall)
      else if Rule.follower? w = some ':' then some (w.claim .propertyKey)
      else none := by
  simp only [verdict, ofWord, keyword, name, upper, digit, Bool.false_eq_true,
    reduceIte, Word.claim]
  repeat' split
  all_goals simp_all

theorem verdict_capital (keyword : isKeyword w.chars = false) (upper : w.firstIs Char.isUpper)
    {answer : Bool} (hanswer : closing[w.stop]? = some answer) :
    verdict closing w = if answer then none else some (w.claim .typeName) := by
  cases answer <;> simp [verdict, ofWord, keyword, upper, hanswer, Word.claim]

theorem verdict_decimal (keyword : isKeyword w.chars = false)
    (upper : w.firstIs Char.isUpper = false) (digit : w.firstIs Char.isDigit) :
    verdict closing w = (Rule.numberLength? w).map (fun length ↦ ⟨w.start, length, .number⟩) := by
  cases hlength : Rule.numberLength? w <;> simp [verdict, ofWord, keyword, upper, digit, hlength]

theorem verdict_other (keyword : isKeyword w.chars = false) (name : w.firstIs startsName = false)
    (upper : w.firstIs Char.isUpper = false) (digit : w.firstIs Char.isDigit = false) :
    verdict closing w = none := by
  simp [verdict, ofWord, keyword, name, upper, digit]

theorem verdict_rank (hinside : w.stop < closing.size) {c : Claim}
    (h : verdict closing w = some c) :
    (isKeyword w.chars ∧ c.category.rank = 4) ∨ (w.firstIs Char.isUpper ∧ c.category.rank = 5) ∨
      (w.firstIs Char.isDigit ∧ c.category.rank = 6) ∨
      (w.firstIs startsName ∧ 7 ≤ c.category.rank ∧ c.category.rank < 9) := by
  cases kind w with
  | reserved keyword =>
    rw [verdict_reserved keyword] at h
    cases h
    exact .inl ⟨keyword, rfl⟩
  | name keyword name upper digit =>
    refine .inr (.inr (.inr ⟨name, ?_⟩))
    rw [verdict_name keyword name upper digit] at h
    split at h
    · cases h
      show 7 ≤ 7 ∧ 7 < 9
      omega
    · split at h <;> cases h
      show 7 ≤ 8 ∧ 8 < 9
      omega
  | capital keyword name upper =>
    rw [verdict_capital keyword upper (Array.getElem?_eq_getElem hinside)] at h
    split at h <;> cases h
    exact .inr (.inl ⟨upper, rfl⟩)
  | decimal keyword name upper digit =>
    rw [verdict_decimal keyword upper digit] at h
    obtain ⟨length, -, rfl⟩ := Option.map_eq_some_iff.mp h
    exact .inr (.inr (.inl ⟨digit, rfl⟩))
  | other keyword name upper digit =>
    rw [verdict_other keyword name upper digit] at h
    cases h

end verdict

/-- A rule answers for the categories from rank `low` on and before rank `high`, to words that no
category before them has taken. -/
structure Answers (closing : Array Bool) (rule : Rule) (low high : Nat) : Prop where
  answer : ∀ {o : Ownership} {w : Word}, w.stop < closing.size →
    (∀ c, verdict closing w = some c → low ≤ c.category.rank ∧ o.isOwned w.start = false) →
    rule o w = .ok ((verdict closing w).filter (fun c ↦ c.category.rank < high))
  absorbed : ∀ {o : Ownership} {w : Word}, w.firstIs Char.isDigit →
    (low ≤ Category.number.rank → Category.number.rank < high → o.isOwned w.start) →
      rule o w = .ok none

section rules

variable {o : Ownership} {w : Word} {closing : Array Bool} {rule : Rule} {low high : Nat}

theorem keyword_silent (h : isKeyword w.chars = false) : Rule.keyword o w = .ok none := by
  simp [Rule.keyword, h]

theorem typeName_silent (h : w.firstIs Char.isUpper = false) :
    Rule.typeName closing o w = .ok none := by
  simp [Rule.typeName, h]

theorem number_silent (h : w.firstIs Char.isDigit = false) : Rule.number o w = .ok none := by
  have hlength : Rule.numberLength? w = none := by simp [Rule.numberLength?, h]
  rw [Rule.number, hlength]
  split <;> rfl

theorem number_owned (h : o.isOwned w.start) : Rule.number o w = .ok none := by
  rw [Rule.number, if_pos h]

theorem callOrKey_silent (h : w.firstIs startsName = false) : Rule.callOrKey o w = .ok none := by
  simp [Rule.callOrKey, h]

theorem silent_answer (hsilent : rule o w = .ok none)
    (h : ∀ c, verdict closing w = some c → low ≤ c.category.rank ∧ o.isOwned w.start = false)
    (hout : ∀ c, verdict closing w = some c → c.category.rank < low ∨ high ≤ c.category.rank) :
    rule o w = .ok ((verdict closing w).filter (fun c ↦ c.category.rank < high)) := by
  rw [hsilent]
  congr 1
  symm
  rw [Option.filter_eq_none_iff]
  intro c hc
  have hle := (h c hc).1
  have hrank := hout c hc
  rw [decide_eq_true_eq]
  omega

theorem keyword_answers : Answers closing Rule.keyword 4 5 where
  answer := by
    intro o w hinside h
    cases hkeyword : isKeyword w.chars with
    | true =>
      rw [Rule.keyword, if_pos hkeyword, verdict_reserved hkeyword]
      rfl
    | false =>
      refine silent_answer (keyword_silent hkeyword) h ?_
      intro c hc
      rcases verdict_rank hinside hc with ⟨keyword, -⟩ | ⟨-, hrank⟩ | ⟨-, hrank⟩ | ⟨-, hrank⟩
      · exact absurd keyword (by simp [hkeyword])
      all_goals omega
  absorbed := by
    intro o w hdigit _
    cases kind w with
    | reserved _ _ _ digit => exact absurd hdigit (by simp [digit])
    | name keyword | capital keyword | decimal keyword | other keyword =>
      exact keyword_silent keyword

theorem typeName_answers : Answers closing (Rule.typeName closing) 5 6 where
  answer := by
    intro o w hinside h
    cases kind w with
    | capital keyword _ upper =>
      have hanswer := Array.getElem?_eq_getElem hinside
      rw [Rule.typeName, if_pos upper, hanswer, verdict_capital keyword upper hanswer]
      cases closing[w.stop] <;> rfl
    | reserved _ _ upper | name _ _ upper | decimal _ _ upper | other _ _ upper =>
      refine silent_answer (typeName_silent upper) h ?_
      intro c hc
      rcases verdict_rank hinside hc with ⟨-, hrank⟩ | ⟨hupper, -⟩ | ⟨-, hrank⟩ | ⟨-, hrank⟩
      · omega
      · exact absurd hupper (by simp [upper])
      all_goals omega
  absorbed := by
    intro o w hdigit _
    cases kind w with
    | capital _ _ _ digit => exact absurd hdigit (by simp [digit])
    | reserved _ _ upper | name _ _ upper | decimal _ _ upper | other _ _ upper =>
      exact typeName_silent upper

theorem number_answers : Answers closing Rule.number 6 7 where
  answer := by
    intro o w hinside h
    cases kind w with
    | decimal keyword _ upper digit =>
      have hverdict : verdict closing w = _ := verdict_decimal keyword upper digit
      cases hlength : Rule.numberLength? w with
      | none =>
        rw [Rule.number, hverdict, hlength]
        split <;> rfl
      | some length =>
        rw [hlength] at hverdict
        rw [Rule.number, (h _ hverdict).2, hverdict, hlength]
        rfl
    | reserved _ _ _ digit | name _ _ _ digit | capital _ _ _ digit | other _ _ _ digit =>
      refine silent_answer (number_silent digit) h ?_
      intro c hc
      rcases verdict_rank hinside hc with ⟨-, hrank⟩ | ⟨-, hrank⟩ | ⟨hdigit, -⟩ | ⟨-, hrank⟩
      · omega
      · omega
      · exact absurd hdigit (by simp [digit])
      · omega
  absorbed := by
    intro o w _ howned
    exact number_owned (howned (Nat.le_refl 6) (Nat.lt_succ_self 6))

theorem callOrKey_answers : Answers closing Rule.callOrKey 7 9 where
  answer := by
    intro o w hinside h
    cases kind w with
    | reserved keyword =>
      have hrank : 7 ≤ Category.keyword.rank := (h _ (verdict_reserved keyword)).1
      exact absurd hrank (by decide)
    | name keyword name upper digit =>
      rw [Rule.callOrKey, if_pos name, verdict_name keyword name upper digit]
      split
      · rfl
      · split <;> rfl
    | capital _ name | decimal _ name | other _ name =>
      refine silent_answer (callOrKey_silent name) h ?_
      intro c hc
      rcases verdict_rank hinside hc with ⟨-, hrank⟩ | ⟨-, hrank⟩ | ⟨-, hrank⟩ | ⟨hname, -⟩
      · omega
      · omega
      · omega
      · exact absurd hname (by simp [name])
  absorbed := by
    intro o w hdigit _
    cases kind w with
    | reserved _ _ _ digit | name _ _ _ digit => exact absurd hdigit (by simp [digit])
    | capital _ name | decimal _ name | other _ name => exact callOrKey_silent name

end rules

end ScriptSpans.Raw
