import ScriptSpans.Proofs.Codec.Fields
import ScriptSpans.Proofs.Json.RoundTrip
import Mathlib.Data.List.Nodup

namespace ScriptSpans

open Json

namespace Codec

theorem eq_of_fst_eq {α : Type} {members : List (String × α)} (h : (members.map Prod.fst).Nodup)
    {a b : String × α} (ha : a ∈ members) (hb : b ∈ members) (heq : a.1 = b.1) : a = b :=
  List.inj_on_of_nodup_map h ha hb heq

theorem lookup?_perm {α : Type} {members others : List (String × α)} (hperm : members.Perm others)
    (hnodup : (members.map Prod.fst).Nodup) (name : String) :
    lookup? members name = lookup? others name := by
  refine hperm.foldl_eq' (fun a ha b hb found ↦ ?_) none
  by_cases hname : a.1 = b.1
  · rw [eq_of_fst_eq hnodup ha hb hname]
  · split_ifs with hb' ha'
    · exact absurd (ha'.trans hb'.symm) hname
    · rfl
    · rfl
    · rfl

theorem ofObject_congr {members others : List (String × Value)} {children later : Children}
    (hmembers : ∀ name, lookup? members name = lookup? others name)
    (hchildren : ∀ name, lookup? children name = lookup? later name) :
    ofObject members children = ofObject others later := by
  simp only [ofObject, kindOf, spanOf, lineOf, documentOf, partsOf, field, hmembers, hchildren]

theorem node_mergeSort {members : List (String × Value)} (hnodup : (members.map Prod.fst).Nodup) :
    node (.object (members.mergeSort byName)) = node (.object members) := by
  have hperm := List.mergeSort_perm members byName
  have hsorted : ((members.mergeSort byName).map Prod.fst).Nodup :=
    (hperm.map Prod.fst).nodup_iff.mpr hnodup
  rw [node, node]
  refine ofObject_congr (lookup?_perm hperm hsorted) ?_
  rw [childrenOf_eq_map, childrenOf_eq_map]
  refine lookup?_perm (hperm.map _) ?_
  rw [List.map_map]
  exact hsorted

theorem node_sorted {members : List (String × Value)} (hnodup : (members.map Prod.fst).Nodup) :
    node (Value.object members).sorted = node (.object (sortedMembers members)) := by
  rw [Value.sorted]
  refine node_mergeSort ?_
  rw [sortedMembers_eq_map, List.map_map]
  exact hnodup

theorem node_span (span : Span) : node span.toValue.sorted = .ok (.span span) := by
  have hsorted : node span.toValue.sorted = node span.toValue := node_sorted (by simp)
  have hkind : kindOf [("_type", .string NodeKind.span.name), ("text", .string span.text),
      ("category", .string span.category.name)] = .ok .span := kindOf_eq_ok_iff.mpr rfl
  rw [hsorted, Span.toValue, node]
  exact ofObject_eq_span_iff.mpr ⟨hkind, spanOf_eq_ok_iff.mpr ⟨rfl, rfl⟩⟩

theorem forall₂_node_sorted {α : Type} {toValue : α → Value} (make : α → Node)
    (h : ∀ a, node (toValue a).sorted = .ok (make a)) (as : List α) :
    List.Forall₂ (fun item a ↦ node item = .ok (make a)) (sortedItems (as.map toValue)) as := by
  rw [sortedItems_eq_map, List.map_map, List.forall₂_map_left_iff]
  exact List.forall₂_same.mpr fun a _ ↦ h a

theorem node_line (line : Line) : node line.toValue.sorted = .ok (.line line) := by
  have hsorted : node line.toValue.sorted = node (.object [("_type", .string NodeKind.line.name),
      ("lineno", .integer line.lineno),
      ("spans", .array (sortedItems (line.spans.map Span.toValue)))]) :=
    node_sorted (by simp)
  have hspans := forall₂_node_sorted .span node_span line.spans
  rw [hsorted, node]
  exact ofObject_eq_line_iff.mpr
    ⟨kindOf_eq_ok_iff.mpr rfl, lineOf_eq_ok_iff.mpr ⟨rfl, _, rfl, hspans⟩⟩

theorem node_document (doc : Document) : node doc.toValue.sorted = .ok (.document doc) := by
  have hsorted : node doc.toValue.sorted = node (.object [("_type", .string NodeKind.document.name),
      ("lines", .array (sortedItems (doc.lines.map Line.toValue)))]) := node_sorted (by simp)
  have hlines := forall₂_node_sorted .line node_line doc.lines
  rw [hsorted, node]
  exact ofObject_eq_document_iff.mpr
    ⟨kindOf_eq_ok_iff.mpr rfl, documentOf_eq_ok_iff.mpr ⟨_, rfl, hlines⟩⟩

end Codec

theorem Span.exact_toValue (span : Span) : span.toValue.Exact := by
  refine .object ?_
  simp only [List.forall_mem_cons]
  exact ⟨.string _, .string _, .string _, by simp⟩

theorem Line.exact_toValue {line : Line} (h : line.lineno.natAbs < 10 ^ integerDigitLimit) :
    line.toValue.Exact := by
  refine .object ?_
  simp only [List.forall_mem_cons]
  refine ⟨.string _, .integer h, .array ?_, by simp⟩
  intro item hitem
  obtain ⟨span, -, rfl⟩ := List.mem_map.mp hitem
  exact span.exact_toValue

def Node.linenos : Node → List Int
  | .span _ => []
  | .line l => [l.lineno]
  | .document d => d.lines.map Line.lineno

theorem Node.exact_toValue {node : Node}
    (h : ∀ n ∈ node.linenos, n.natAbs < 10 ^ integerDigitLimit) :
    node.toValue.Exact := by
  cases node with
  | span s => exact s.exact_toValue
  | line l => exact l.exact_toValue (h l.lineno (List.mem_singleton.mpr rfl))
  | document d =>
    refine .object ?_
    simp only [List.forall_mem_cons]
    refine ⟨.string _, .array ?_, by simp⟩
    intro item hitem
    obtain ⟨line, hline, rfl⟩ := List.mem_map.mp hitem
    exact line.exact_toValue (h line.lineno (List.mem_map.mpr ⟨line, hline, rfl⟩))

/-- A node is read back from its text, whatever the layout, if its line numbers are not too long to
be read. -/
theorem Node.ofJson_toJson (layout : Layout) (node : Node)
    (h : ∀ n ∈ node.linenos, n.natAbs < 10 ^ integerDigitLimit) :
    Node.ofJson (node.toJson layout) = .ok node := by
  rw [Node.ofJson, Node.toJson, read_write (Node.exact_toValue h)]
  cases node with
  | span s => exact Codec.node_span s
  | line l => exact Codec.node_line l
  | document d => exact Codec.node_document d

theorem Node.ofJson_toJson_escapes :
    let node := Node.document ⟨[⟨[⟨.string, "\"\\\n\x01𝒳"⟩, ⟨.plain, "a &lt; b"⟩], -3⟩, ⟨[], 0⟩]⟩
    (∀ n ∈ node.linenos, n.natAbs < 10 ^ integerDigitLimit) ∧
      Node.ofJson (node.toJson (some 2)) = .ok node := by
  intro node
  have hshort : ∀ n ∈ node.linenos, n.natAbs < 10 ^ integerDigitLimit := by
    have hsmall : ∀ n ∈ node.linenos, n.natAbs < 10 := by decide
    exact fun n hn ↦ Nat.lt_of_lt_of_le (hsmall n hn) Text.ten_le_pow_digitLimit
  exact ⟨hshort, Node.ofJson_toJson (some 2) node hshort⟩

end ScriptSpans
