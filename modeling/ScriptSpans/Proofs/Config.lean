import ScriptSpans.Config
import ScriptSpans.Proofs.Traversal

namespace ScriptSpans.Config

open Json

/-- The limit that settings give. Not to give one is to give null. -/
def givenLimit (members : List (String × Value)) : Value :=
  (lookup? members "max_line_length").getD .null

inductive Limits : Value → Option Nat → Prop
  | none : Limits .null .none
  | boolean (b : Bool) : Limits (.boolean b) (some b.toNat)
  | integer {n : Int} (h : 0 ≤ n) : Limits (.integer n) (some n.toNat)
  | real {x : Float} (h : ¬ x < 0) (finite : x.isFinite) : Limits (.real x) (some x.toUInt64.toNat)
  | endless {x : Float} (h : ¬ x < 0) (endless : ¬ x.isFinite) : Limits (.real x) .none

inductive Refuses : Value → ConfigFault → Prop
  | integer {n : Int} (h : n < 0) : Refuses (.integer n) .negativeLimit
  | real {x : Float} (h : x < 0) : Refuses (.real x) .negativeLimit
  | string (s : String) : Refuses (.string s) (.incomparableLimit .string)
  | array (items : List Value) : Refuses (.array items) (.incomparableLimit .array)
  | object (members : List (String × Value)) :
      Refuses (.object members) (.incomparableLimit .object)

variable {v : Value} {limit : Option Nat} {fault : ConfigFault}

theorem Limits.limitOf_eq (h : Limits v limit) : limitOf v = .ok limit := by
  cases h with
  | none | boolean => rfl
  | integer h => rw [limitOf, if_neg (Int.not_lt.mpr h)]
  | real h finite => rw [limitOf, if_neg h, if_pos finite]
  | endless h endless => rw [limitOf, if_neg h, if_neg endless]

theorem Refuses.limitOf_eq (h : Refuses v fault) : limitOf v = .error fault := by
  cases h with
  | integer h => rw [limitOf, if_pos h]
  | real h => rw [limitOf, if_pos h]
  | string | array | object => rfl

theorem limits_or_refuses (v : Value) : (∃ limit, Limits v limit) ∨ ∃ fault, Refuses v fault := by
  cases v with
  | null => exact .inl ⟨_, .none⟩
  | boolean b => exact .inl ⟨_, .boolean b⟩
  | integer n =>
    by_cases h : n < 0
    · exact .inr ⟨_, .integer h⟩
    · exact .inl ⟨_, .integer (Int.not_lt.mp h)⟩
  | real x =>
    by_cases h : x < 0
    · exact .inr ⟨_, .real h⟩
    · by_cases finite : x.isFinite
      · exact .inl ⟨_, .real h finite⟩
      · exact .inl ⟨_, .endless h finite⟩
  | string s => exact .inr ⟨_, .string s⟩
  | array items => exact .inr ⟨_, .array items⟩
  | object members => exact .inr ⟨_, .object members⟩

theorem limitOf_eq_ok_iff : limitOf v = .ok limit ↔ Limits v limit := by
  refine ⟨fun h ↦ ?_, Limits.limitOf_eq⟩
  rcases limits_or_refuses v with ⟨limit', hlimit⟩ | ⟨fault, hfault⟩
  · obtain rfl := Except.ok.inj (hlimit.limitOf_eq.symm.trans h)
    exact hlimit
  · cases hfault.limitOf_eq.symm.trans h

theorem limitOf_eq_error_iff : limitOf v = .error fault ↔ Refuses v fault := by
  refine ⟨fun h ↦ ?_, Refuses.limitOf_eq⟩
  rcases limits_or_refuses v with ⟨limit, hlimit⟩ | ⟨fault', hfault⟩
  · cases hlimit.limitOf_eq.symm.trans h
  · obtain rfl := Except.error.inj (hfault.limitOf_eq.symm.trans h)
    exact hfault

variable {members : List (String × Value)}

theorem ofMembers_eq_ok_iff {config : Config} :
    ofMembers members = .ok config ↔ Limits (givenLimit members) config.maxLineLength ∧
      config.trimSnippet = ((lookup? members "trim_snippet").map switchOf).getD false := by
  obtain ⟨limit, trim⟩ := config
  rw [ofMembers, map_eq_ok_iff]
  simp only [Config.mk.injEq, ← limitOf_eq_ok_iff, givenLimit]
  constructor
  · rintro ⟨limit', hlimit, rfl, htrim⟩
    exact ⟨hlimit, htrim⟩
  · rintro ⟨hlimit, htrim⟩
    exact ⟨limit, hlimit, rfl, htrim⟩

theorem ofMembers_eq_error_iff : ofMembers members = .error fault ↔
    Refuses (givenLimit members) fault := by
  rw [ofMembers, map_eq_error_iff, limitOf_eq_error_iff, givenLimit]

end ScriptSpans.Config
