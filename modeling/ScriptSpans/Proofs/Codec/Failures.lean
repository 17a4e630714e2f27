import ScriptSpans.Failure
import ScriptSpans.Proofs.Codec.Fields
import ScriptSpans.Proofs.Json.Readings
import ScriptSpans.Proofs.Numeral

namespace ScriptSpans

open Json

namespace Codec

/-- The result is an error that the decoder does not announce. -/
def Undocumented {α : Type} (result : Except CodecError α) : Prop :=
  ∃ e, result = .error e ∧ e.kind ≠ .serialization

variable {α β : Type} {members : List (String × Value)} {name : String} {kind : NodeKind}

theorem not_undocumented_ok (a : α) : ¬ Undocumented (.ok a) := by
  rintro ⟨e, h, -⟩
  cases h

theorem undocumented_error_iff {e : CodecError} :
    Undocumented (.error e : Except CodecError α) ↔ e.kind ≠ .serialization := by
  constructor
  · rintro ⟨e', h, hkind⟩
    cases h
    exact hkind
  · intro hkind
    exact ⟨e, rfl, hkind⟩

theorem undocumented_bind_iff {x : Except CodecError α} {f : α → Except CodecError β} :
    Undocumented (x >>= f) ↔ Undocumented x ∨ ∃ a, x = .ok a ∧ Undocumented (f a) := by
  cases x with
  | error e => simp [bind, Except.bind, undocumented_error_iff]
  | ok a => simp [bind, Except.bind, not_undocumented_ok]

theorem undocumented_map_iff {x : Except CodecError α} {f : α → β} :
    Undocumented (x.map f) ↔ Undocumented x := by
  cases x with
  | error e => simp [Except.map, undocumented_error_iff]
  | ok a => simp [Except.map, not_undocumented_ok]

theorem not_undocumented_field {shape : Shape α} :
    ¬ Undocumented (field shape kind members name) := by
  rw [field]
  cases lookup? members name with
  | none => simp [undocumented_error_iff, CodecError.kind]
  | some value =>
    dsimp only
    cases shape.read? value <;> simp [undocumented_error_iff, not_undocumented_ok, CodecError.kind]

theorem not_undocumented_categoryOf : ¬ Undocumented (categoryOf name) := by
  rw [categoryOf]
  cases Category.ofName? name
    <;> simp [undocumented_error_iff, not_undocumented_ok, CodecError.kind]

theorem not_undocumented_asPart {part : Part α} (n : Node) : ¬ Undocumented (asPart part n) := by
  rw [asPart]
  cases part.read? n <;> simp [undocumented_error_iff, not_undocumented_ok, CodecError.kind]

theorem not_undocumented_spanOf : ¬ Undocumented (spanOf members) := by
  simp [spanOf, undocumented_bind_iff, not_undocumented_field, not_undocumented_categoryOf, pure,
    Except.pure, not_undocumented_ok]

/-- What cannot be turned down as an unknown name: an array or an object, which cannot be looked for
among the names, and an integer with more digits than a message can show. -/
inductive Nameless : Value → Prop
  | array (items : List Value) : Nameless (.array items)
  | object (members : List (String × Value)) : Nameless (.object members)
  | integer {n : Int} : 10 ^ Text.digitLimit ≤ n.natAbs → Nameless (.integer n)

theorem kind_refusal_iff {found : Value} :
    (refusal found).kind ≠ .serialization ↔ Nameless found := by
  cases found with
  | array items => exact iff_of_true (by simp [refusal, CodecError.kind]) (.array items)
  | object members => exact iff_of_true (by simp [refusal, CodecError.kind]) (.object members)
  | integer n =>
    have hnameless : Nameless (.integer n) ↔ Text.numeral? n = none := by
      rw [Text.numeral?_eq_none_iff]
      exact ⟨fun | .integer h => h, .integer⟩
    rw [hnameless, refusal]
    cases Text.numeral? n <;> simp [CodecError.kind]
  | _ => exact iff_of_false (by simp [refusal, CodecError.kind]) nofun

theorem undocumented_kindOf_iff :
    Undocumented (kindOf members) ↔
      ∃ found, lookup? members "_type" = some found ∧ Nameless found := by
  have hrefusal : ∀ found : Option Value,
      Undocumented (.error (refusal (found.getD .null)) : Except CodecError NodeKind) ↔
        ∃ value, found = some value ∧ Nameless value := by
    intro found
    rw [undocumented_error_iff, kind_refusal_iff]
    cases found with
    | none => exact iff_of_false nofun (by simp)
    | some value => simp
  have hname : ∀ s, ¬ ∃ value, some (Value.string s) = some value ∧ Nameless value := by
    rintro s ⟨_, ⟨⟩, ⟨⟩⟩
  rw [kindOf]
  split
  iterate 3
    rename_i hstring
    rw [hstring]
    exact iff_of_false (not_undocumented_ok _) (hname _)
  exact hrefusal _

theorem exists_asPart_iff {part : Part α} {n : Node} :
    (∃ a, asPart part n = .ok a) ↔ n.kind = part.kind := by
  rw [← part.isSome_read?_iff, Option.isSome_iff_exists]
  simp only [asPart_eq_ok_iff, part.read?_eq_some_iff]

/-- The children of an object are in order up to the first that is not, and only that one is
seen. -/
theorem undocumented_partsOf_iff {part : Part α} :
    Undocumented (partsOf part kind name members (childrenOf members)) ↔
      ∃ before bad after, lookup? members name = some (.array (before ++ bad :: after)) ∧
        (∀ item ∈ before, ∃ n, node item = .ok n ∧ n.kind = part.kind) ∧
        Undocumented (node bad) := by
  have hpasses : ∀ item, (∃ a, node item >>= asPart part = .ok a) ↔
      ∃ n, node item = .ok n ∧ n.kind = part.kind := by
    intro item
    simp only [bind_eq_ok_iff, ← exists_asPart_iff, ← exists_and_left]
    exact exists_comm
  have hfails : ∀ item, Undocumented (node item >>= asPart part) ↔ Undocumented (node item) := by
    intro item
    simp [undocumented_bind_iff, not_undocumented_asPart]
  have hcollect : Undocumented (partsOf part kind name members (childrenOf members)) ↔
      ∃ items, lookup? members name = some (.array items) ∧
        Undocumented (collect (asPart part) ((lookup? (childrenOf members) name).getD [])) := by
    simp only [partsOf, undocumented_bind_iff, not_undocumented_field, false_or, field_eq_ok_iff]
    rfl
  rw [hcollect]
  simp only [← hpasses, ← hfails]
  constructor
  · rintro ⟨items, hitems, e, he, hkind⟩
    obtain ⟨before, bad, after, rfl, hbefore, hbad⟩ := (collect_items_eq_error_iff hitems).mp he
    exact ⟨before, bad, after, hitems, hbefore, e, hbad, hkind⟩
  · rintro ⟨before, bad, after, hitems, hbefore, e, hbad, hkind⟩
    have hfirst := (collect_items_eq_error_iff hitems).mpr ⟨before, bad, after, rfl, hbefore, hbad⟩
    exact ⟨_, hitems, e, hfirst, hkind⟩

theorem undocumented_lineOf_iff {children : Children} :
    Undocumented (lineOf members children) ↔
      Undocumented (partsOf .span .line "spans" members children) := by
  simp [lineOf, undocumented_bind_iff, not_undocumented_field, pure, Except.pure,
    not_undocumented_ok]

theorem undocumented_documentOf_iff {children : Children} :
    Undocumented (documentOf members children) ↔
      Undocumented (partsOf .line .document "lines" members children) := by
  simp [documentOf, undocumented_bind_iff, pure, Except.pure, not_undocumented_ok]

end Codec

open Codec

def NodeKind.parts? : NodeKind → Option (String × NodeKind)
  | .span => none
  | .line => some ("spans", .span)
  | .document => some ("lines", .line)

/-- The decoder comes upon an object whose kind cannot be turned down as an unknown name: the value
itself, or the first of its parts that is not in order. -/
inductive Misnamed : Value → Prop
  | here {members : List (String × Value)} {found : Value} :
      lookup? members "_type" = some found → Nameless found → Misnamed (.object members)
  | part {members : List (String × Value)} {kind partKind : NodeKind} {name : String}
      {before after : List Value} {bad : Value} :
      lookup? members "_type" = some (.string kind.name) → kind.parts? = some (name, partKind) →
      lookup? members name = some (.array (before ++ bad :: after)) →
      (∀ item ∈ before, ∃ node, Node.ofValue item = .ok node ∧ node.kind = partKind) →
      Misnamed bad → Misnamed (.object members)

namespace Codec

variable {members : List (String × Value)} {name : String} {kind : NodeKind}

theorem sizeOf_item_lt {items : List Value}
    (h : lookup? members name = some (.array items)) {item : Value} (hitem : item ∈ items) :
    sizeOf item < sizeOf (Value.object members) := by
  have hmember := List.sizeOf_lt_of_mem (mem_of_lookup? h)
  have hitem := List.sizeOf_lt_of_mem hitem
  simp only [Prod.mk.sizeOf_spec, Value.array.sizeOf_spec, Value.object.sizeOf_spec] at *
  omega

theorem undocumented_node_iff {partKind : NodeKind} (hparts : kind.parts? = some (name, partKind))
    (htype : lookup? members "_type" = some (.string kind.name)) :
    Undocumented (node (.object members)) ↔
      ∃ before bad after, lookup? members name = some (.array (before ++ bad :: after)) ∧
        (∀ item ∈ before, ∃ n, node item = .ok n ∧ n.kind = partKind) ∧
        Undocumented (node bad) := by
  rw [node, ofObject, kindOf_eq_ok_iff.mpr htype]
  cases kind <;> cases hparts
  · exact undocumented_map_iff.trans (undocumented_lineOf_iff.trans undocumented_partsOf_iff)
  · exact undocumented_map_iff.trans (undocumented_documentOf_iff.trans undocumented_partsOf_iff)

theorem undocumented_of_misnamed {value : Value} (h : Misnamed value) :
    Undocumented (node value) := by
  induction h with
  | @here members found hfound hnameless =>
    obtain ⟨e, he, hkind⟩ := undocumented_kindOf_iff.mpr ⟨found, hfound, hnameless⟩
    refine ⟨e, ?_, hkind⟩
    rw [node, ofObject, he]
  | @part members kind partKind name before after bad htype hparts hitems hbefore _ ih =>
    exact (undocumented_node_iff hparts htype).mpr ⟨before, bad, after, hitems, hbefore, ih⟩

theorem misnamed_of_undocumented {value : Value} (h : Undocumented (node value)) :
    Misnamed value := by
  -- Induction on the size: the part that fails is an item of an array that the object holds.
  cases value with
  | object members =>
    cases hkind : kindOf members with
    | error e =>
      rw [node, ofObject, hkind, undocumented_error_iff] at h
      obtain ⟨found, hfound, hnameless⟩ := undocumented_kindOf_iff.mp ⟨e, hkind, h⟩
      exact .here hfound hnameless
    | ok kind =>
      have htype := kindOf_eq_ok_iff.mp hkind
      cases hparts : kind.parts? with
      | none =>
        obtain rfl : kind = .span := by cases kind <;> first | rfl | cases hparts
        rw [node, ofObject, hkind] at h
        exact absurd (undocumented_map_iff.mp h) not_undocumented_spanOf
      | some parts =>
        obtain ⟨before, bad, after, hitems, hbefore, hbad⟩ :=
          (undocumented_node_iff hparts htype).mp h
        have hsmaller := sizeOf_item_lt hitems (List.mem_append_right before List.mem_cons_self)
        exact .part htype hparts hitems hbefore (misnamed_of_undocumented hbad)
  | _ => exact absurd h (by simp [node, undocumented_error_iff, CodecError.kind])
termination_by sizeOf value

end Codec

theorem undocumented_ofValue_iff {value : Value} :
    Undocumented (Node.ofValue value) ↔ Misnamed value :=
  ⟨misnamed_of_undocumented, undocumented_of_misnamed⟩

theorem undocumented_ofReadError_iff {e : ReadError} :
    (CodecError.ofReadError e).kind ≠ .serialization ↔ ∃ count, e = .hugeInteger count := by
  cases e <;> simp [CodecError.ofReadError, CodecError.kind]

/-- Decoding fails as documented but for two causes: an object whose kind cannot be turned down as an
unknown name, and a text in which an integer has more digits than are converted. -/
theorem Node.undocumented_iff (value : Value) (text : String) :
    (Undocumented (Node.ofValue value) ↔ Misnamed value) ∧
      (Undocumented (Node.ofJson text) ↔
        (∃ count, Value.read text = .error (.hugeInteger count) ∧ integerDigitLimit < count ∧
          HasDigits count text.toList) ∨
        ∃ found, Value.read text = .ok found ∧ Misnamed found) := by
  refine ⟨undocumented_ofValue_iff, ?_⟩
  rw [Node.ofJson]
  cases hread : Value.read text with
  | error e =>
    have hhuge : ∀ count, e = .hugeInteger count → integerDigitLimit < count ∧
        HasDigits count text.toList :=
      fun count he ↦ read_hugeInteger (he ▸ hread)
    simp only [undocumented_error_iff, undocumented_ofReadError_iff, Except.error.injEq,
      reduceCtorEq, false_and, exists_false, or_false]
    exact exists_congr (fun count ↦ (and_iff_left_of_imp (hhuge count)).symm)
  | ok found => simp [undocumented_ofValue_iff]

/-- An empty list as the kind of a node is no serialization error. -/
theorem Node.not_forall_serialization :
    ¬ ∀ (value : Value) (e : CodecError), Node.ofValue value = .error e →
      e.kind = .serialization := by
  intro h
  have hkind := h (.object [("_type", .array [])]) (.compoundType .array) rfl
  cases hkind

end ScriptSpans
