import ScriptSpans.Proofs.Codec.Fields

namespace ScriptSpans

open Json

def NodeKind.fields : NodeKind → List String
  | .span => ["_type", "text", "category"]
  | .line => ["_type", "lineno", "spans"]
  | .document => ["_type", "lines"]

namespace Json

/-- The kind of node that an object says it is. -/
def claimedKind? (members : List (String × Value)) : Option NodeKind :=
  match lookup? members "_type" with
  | some (.string name) => [NodeKind.span, .line, .document].find? (fun kind ↦ kind.name = name)
  | _ => none

/-- An object that is no node keeps all its members. -/
def keeps (members : List (String × Value)) (name : String) : Bool :=
  match claimedKind? members with
  | none => true
  | some kind => name ∈ kind.fields

mutual

/-- The value without the members that its objects have no use for, at every depth. -/
def Value.pruned : Value → Value
  | .array items => .array (prunedItems items)
  | .object members =>
    .object ((prunedMembers members).filter (fun member ↦ keeps members member.1))
  | other => other
termination_by structural value => value

def prunedItems : List Value → List Value
  | [] => []
  | item :: items => item.pruned :: prunedItems items
termination_by structural items => items

def prunedMembers : List (String × Value) → List (String × Value)
  | [] => []
  | (name, value) :: members => (name, value.pruned) :: prunedMembers members
termination_by structural members => members

end

/-- Values that are equal as JSON. Objects are equal when each name stands for equal values in both,
in whatever order; a truth value, an integer and a real are never equal. -/
inductive Value.Same : Value → Value → Prop
  | null : Same .null .null
  | boolean (b : Bool) : Same (.boolean b) (.boolean b)
  | integer (n : Int) : Same (.integer n) (.integer n)
  | real (x : Float) : Same (.real x) (.real x)
  | string (s : String) : Same (.string s) (.string s)
  | array {items others : List Value} : List.Forall₂ Same items others →
      Same (.array items) (.array others)
  | object {members others : List (String × Value)} :
      (∀ name, Option.Rel Same (lookup? members name) (lookup? others name)) →
        Same (.object members) (.object others)

theorem claimedKind?_eq_some_iff {members : List (String × Value)} {kind : NodeKind} :
    claimedKind? members = some kind ↔ lookup? members "_type" = some (.string kind.name) := by
  constructor
  · intro h
    rw [claimedKind?] at h
    split at h
    · next name hname =>
      have hkind := List.find?_some (p := fun k : NodeKind ↦ decide (k.name = name)) h
      rw [hname, of_decide_eq_true hkind]
    · cases h
  · intro h
    rw [claimedKind?, h]
    cases kind <;> rfl

theorem keeps_eq_true_iff {members : List (String × Value)} {kind : NodeKind}
    (h : lookup? members "_type" = some (.string kind.name)) {name : String} :
    keeps members name = true ↔ name ∈ kind.fields := by
  rw [keeps, claimedKind?_eq_some_iff.mpr h, decide_eq_true_eq]

theorem prunedItems_eq_map (items : List Value) : prunedItems items = items.map Value.pruned := by
  induction items with
  | nil => rfl
  | cons item items ih => rw [prunedItems, ih, List.map_cons]

theorem prunedMembers_eq_map (members : List (String × Value)) :
    prunedMembers members = members.map (fun member ↦ (member.1, member.2.pruned)) := by
  induction members with
  | nil => rfl
  | cons member members ih => rw [prunedMembers, ih, List.map_cons]

open Codec

theorem lookup?_pruned (members : List (String × Value)) (name : String) :
    lookup? ((prunedMembers members).filter (fun member ↦ keeps members member.1)) name =
      if keeps members name then (lookup? members name).map Value.pruned else none := by
  rw [lookup?_filter, prunedMembers_eq_map, lookup?_map]

theorem same_string_iff {value : Value} {s : String} :
    value.pruned.Same (.string s) ↔ value = .string s := by
  constructor
  · intro h
    cases value <;> cases h
    rfl
  · rintro rfl
    exact .string s

theorem same_integer_iff {value : Value} {n : Int} :
    value.pruned.Same (.integer n) ↔ value = .integer n := by
  constructor
  · intro h
    cases value <;> cases h
    rfl
  · rintro rfl
    exact .integer n

theorem same_array_iff {value : Value} {others : List Value} :
    value.pruned.Same (.array others) ↔
      ∃ items, value = .array items ∧ List.Forall₂ (fun item other ↦ item.pruned.Same other)
        items others := by
  constructor
  · intro h
    cases value with
    | array items =>
      cases h with
      | array hitems =>
        rw [prunedItems_eq_map, List.forall₂_map_left_iff] at hitems
        exact ⟨items, rfl, hitems⟩
    | _ => cases h
  · rintro ⟨items, rfl, hitems⟩
    rw [← List.forall₂_map_left_iff (f := Value.pruned), ← prunedItems_eq_map] at hitems
    exact .array hitems

theorem rel_some_iff {found : Option Value} {other : Value} :
    Option.Rel Value.Same (found.map Value.pruned) (some other) ↔
      ∃ value, found = some value ∧ value.pruned.Same other := by
  cases found <;> simp

theorem not_same_object {value : Value} (h : ∀ members, value ≠ .object members)
    (others : List (String × Value)) :
    ¬ value.pruned.Same (.object others) := by
  intro hsame
  cases value with
  | object members => exact h members rfl
  | _ => cases hsame

theorem type_mem_fields (kind : NodeKind) : "_type" ∈ kind.fields := by
  cases kind <;> exact List.mem_cons_self

theorem same_object_iff {members others : List (String × Value)} (kind : NodeKind)
    (htype : lookup? others "_type" = some (.string kind.name))
    (hothers : ∀ name, name ∉ kind.fields → lookup? others name = none) :
    (Value.object members).pruned.Same (.object others) ↔ ∀ name ∈ kind.fields,
      Option.Rel Value.Same ((lookup? members name).map Value.pruned) (lookup? others name) := by
  constructor
  · intro h name hname
    rw [Value.pruned] at h
    cases h with
    | object h =>
      have hkind : lookup? members "_type" = some (.string kind.name) := by
        have hsame := h "_type"
        rw [lookup?_pruned, htype] at hsame
        split_ifs at hsame
        · obtain ⟨value, hvalue, hsame⟩ := rel_some_iff.mp hsame
          rw [hvalue, same_string_iff.mp hsame]
        · cases hsame
      have hsame := h name
      rwa [lookup?_pruned, if_pos ((keeps_eq_true_iff hkind).mpr hname)] at hsame
  · intro h
    have hkind : lookup? members "_type" = some (.string kind.name) := by
      have hsame := h "_type" (type_mem_fields kind)
      rw [htype] at hsame
      obtain ⟨value, hvalue, hsame⟩ := rel_some_iff.mp hsame
      rw [hvalue, same_string_iff.mp hsame]
    rw [Value.pruned]
    refine .object (fun name ↦ ?_)
    rw [lookup?_pruned]
    by_cases hname : name ∈ kind.fields
    · rw [if_pos ((keeps_eq_true_iff hkind).mpr hname)]
      exact h name hname
    · rw [if_neg ((keeps_eq_true_iff hkind).not.mpr hname), hothers name hname]
      exact .none

end Json

namespace Codec

variable {members : List (String × Value)}

theorem same_span_iff {span : Span} :
    (Value.object members).pruned.Same span.toValue ↔
      kindOf members = .ok .span ∧ spanOf members = .ok span := by
  rw [Span.toValue, same_object_iff .span (by simp [lookup?])
    (by simp +contextual [NodeKind.fields, lookup?, eq_comm]), kindOf_eq_ok_iff, spanOf_eq_ok_iff]
  simp [NodeKind.fields, lookup?, rel_some_iff, same_string_iff]

theorem node_eq_span_iff {value : Value} {span : Span} :
    node value = .ok (.span span) ↔ value.pruned.Same span.toValue := by
  cases value with
  | object members => rw [node, ofObject_eq_span_iff, same_span_iff]
  | _ => exact iff_of_false (by simp [node]) (not_same_object (by simp) _)

theorem same_line_iff {line : Line} :
    (Value.object members).pruned.Same line.toValue ↔
      kindOf members = .ok .line ∧ lineOf members (childrenOf members) = .ok line := by
  rw [Line.toValue, same_object_iff .line (by simp [lookup?])
    (by simp +contextual [NodeKind.fields, lookup?, eq_comm]), kindOf_eq_ok_iff, lineOf_eq_ok_iff]
  simp [NodeKind.fields, lookup?, rel_some_iff, same_string_iff, same_integer_iff, same_array_iff,
    node_eq_span_iff]

theorem node_eq_line_iff {value : Value} {line : Line} :
    node value = .ok (.line line) ↔ value.pruned.Same line.toValue := by
  cases value with
  | object members => rw [node, ofObject_eq_line_iff, same_line_iff]
  | _ => exact iff_of_false (by simp [node]) (not_same_object (by simp) _)

theorem same_document_iff {doc : Document} :
    (Value.object members).pruned.Same doc.toValue ↔
      kindOf members = .ok .document ∧ documentOf members (childrenOf members) = .ok doc := by
  rw [Document.toValue, same_object_iff .document (by simp [lookup?])
    (by simp +contextual [NodeKind.fields, lookup?, eq_comm]), kindOf_eq_ok_iff,
    documentOf_eq_ok_iff]
  simp [NodeKind.fields, lookup?, rel_some_iff, same_string_iff, same_array_iff, node_eq_line_iff]

theorem node_eq_document_iff {value : Value} {doc : Document} :
    node value = .ok (.document doc) ↔ value.pruned.Same doc.toValue := by
  cases value with
  | object members => rw [node, ofObject_eq_document_iff, same_document_iff]
  | _ => exact iff_of_false (by simp [node]) (not_same_object (by simp) _)

end Codec

/-- A value is read as a node when it is the node's own value but for members that its objects have
no use for, and only then. -/
theorem Node.ofValue_eq_ok_iff (value : Value) (node : Node) :
    Node.ofValue value = .ok node ↔ value.pruned.Same node.toValue := by
  cases node with
  | span s => exact Codec.node_eq_span_iff
  | line l => exact Codec.node_eq_line_iff
  | document d => exact Codec.node_eq_document_iff

end ScriptSpans
