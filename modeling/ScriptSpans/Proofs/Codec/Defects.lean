import ScriptSpans.Proofs.Codec.Failures

namespace ScriptSpans

open Json

namespace Codec

/-- Why a value is no node of this kind: it is not read, or it is a node of another kind. -/
inductive Misfit (wanted : NodeKind) (value : Value) : CodecError → Prop
  | unread {e : CodecError} : Node.ofValue value = .error e → Misfit wanted value e
  | other {node : Node} : Node.ofValue value = .ok node → node.kind ≠ wanted →
      Misfit wanted value (.wrongChild wanted node.kind)

variable {members : List (String × Value)} {name : String} {kind : NodeKind} {value : Value}
    {e : CodecError}

theorem fits_or_misfit (kind : NodeKind) (value : Value) :
    (∃ node, Node.ofValue value = .ok node ∧ node.kind = kind) ∨ ∃ e, Misfit kind value e := by
  cases hvalue : Node.ofValue value with
  | error e => exact .inr ⟨e, .unread hvalue⟩
  | ok node =>
    by_cases hkind : node.kind = kind
    · exact .inl ⟨node, rfl, hkind⟩
    · exact .inr ⟨_, .other hvalue hkind⟩

section parts

variable {α : Type} {part : Part α} {before after : List Value} {bad : Value}

theorem asPart_of_ne {n : Node} (h : n.kind ≠ part.kind) :
    asPart part n = .error (.wrongChild part.kind n.kind) := by
  have hnone : part.read? n = none := by
    rwa [← Option.not_isSome_iff_eq_none, part.isSome_read?_iff]
  rw [asPart, hnone]

theorem Misfit.bind_eq_error (h : Misfit part.kind value e) :
    node value >>= asPart part = .error e := by
  cases h with
  | unread hvalue =>
    rw [show node value = .error e from hvalue]
    rfl
  | @other n hvalue hkind =>
    rw [show node value = .ok n from hvalue]
    exact asPart_of_ne hkind

theorem partsOf_first_defect
    (hitems : lookup? members name = some (.array (before ++ bad :: after)))
    (hbefore : ∀ item ∈ before, ∃ node, Node.ofValue item = .ok node ∧ node.kind = part.kind)
    (hbad : Misfit part.kind bad e) :
    partsOf part kind name members (childrenOf members) = .error e := by
  have hcollect :
      collect (asPart part) ((lookup? (childrenOf members) name).getD []) = .error e := by
    refine (collect_items_eq_error_iff hitems).mpr
      ⟨before, bad, after, rfl, fun item hitem ↦ ?_, hbad.bind_eq_error⟩
    obtain ⟨n, hn, hkind⟩ := hbefore item hitem
    obtain ⟨a, ha⟩ := exists_asPart_iff.mpr hkind
    exact ⟨a, bind_eq_ok_iff.mpr ⟨n, hn, ha⟩⟩
  rw [partsOf, field_eq_ok_iff.mpr hitems, hcollect]
  rfl

end parts

theorem node_first_defect {partKind : NodeKind} (hparts : kind.parts? = some (name, partKind))
    (htype : lookup? members "_type" = some (.string kind.name))
    {before after : List Value} {bad : Value}
    (hitems : lookup? members name = some (.array (before ++ bad :: after)))
    (hbefore : ∀ item ∈ before, ∃ node, Node.ofValue item = .ok node ∧ node.kind = partKind)
    (hbad : Misfit partKind bad e) : node (.object members) = .error e := by
  rw [node, ofObject, kindOf_eq_ok_iff.mpr htype]
  cases kind <;> cases hparts
  · rw [lineOf, partsOf_first_defect hitems hbefore hbad]
    rfl
  · rw [documentOf, partsOf_first_defect hitems hbefore hbad]
    rfl

end Codec

/-- The first part that does not fit decides how the reading of a line or a document fails. If that
part is a node of another kind, the error names the two kinds. -/
theorem Node.ofValue_first_defect {kind partKind : NodeKind} {name : String}
    (hparts : kind.parts? = some (name, partKind)) {members : List (String × Value)}
    (htype : lookup? members "_type" = some (.string kind.name))
    {before after : List Value} {bad : Value}
    (hitems : lookup? members name = some (.array (before ++ bad :: after)))
    (hbefore : ∀ item ∈ before, ∃ node, Node.ofValue item = .ok node ∧ node.kind = partKind)
    (hbad : ∀ node, Node.ofValue bad = .ok node → node.kind ≠ partKind) :
    ∃ e, Codec.Misfit partKind bad e ∧ Node.ofValue (.object members) = .error e ∧
      ∀ node, Node.ofValue bad = .ok node →
        e.message = s!"Expected {partKind.name}, got {node.kind.name}" ∧
          e.kind = .serialization := by
  rcases Codec.fits_or_misfit partKind bad with ⟨node, hnode, hkind⟩ | ⟨e, he⟩
  · exact absurd hkind (hbad node hnode)
  · refine ⟨e, he, Codec.node_first_defect hparts htype hitems hbefore he, fun node hnode ↦ ?_⟩
    cases he with
    | unread hvalue =>
      rw [hvalue] at hnode
      cases hnode
    | other hvalue _ =>
      rw [hvalue] at hnode
      cases hnode
      exact ⟨rfl, rfl⟩

/-- A document of which the second line holds a document behind a span, and no number. -/
theorem Node.ofValue_first_defect_nested :
    let span : Value :=
      .object [("_type", .string "Span"), ("text", .string "a"), ("category", .string "PLAIN")]
    let good : Value :=
      .object [("lineno", .integer 1), ("_type", .string "Line"), ("spans", .array [span])]
    let bad : Value :=
      .object [("spans", .array [span,
          .object [("_type", .string "Document"), ("lines", .array [])], .null]),
        ("_type", .string "Line")]
    let members :=
      [("lines", Value.array [good, bad, .integer 0]), ("_type", .string "Document"),
        ("source", .null)]
    (NodeKind.document.parts? = some ("lines", .line) ∧
        lookup? members "_type" = some (.string NodeKind.document.name) ∧
        lookup? members "lines" = some (.array ([good] ++ bad :: [.integer 0])) ∧
        (∀ item ∈ [good], ∃ node, Node.ofValue item = .ok node ∧ node.kind = .line) ∧
        ∀ node, Node.ofValue bad = .ok node → node.kind ≠ .line) ∧
      Node.ofValue (.object members) = .error (.wrongChild .span .document) := by
  intro span good bad members
  have hgood : ∀ item ∈ [good], ∃ node, Node.ofValue item = .ok node ∧ node.kind = .line := by
    intro item hitem
    rw [List.mem_singleton.mp hitem]
    exact ⟨.line ⟨[⟨.plain, "a"⟩], 1⟩, rfl, rfl⟩
  have hvalue : Node.ofValue bad = .error (.wrongChild .span .document) := rfl
  have hbad : ∀ node, Node.ofValue bad = .ok node → node.kind ≠ .line := by
    intro node hnode
    rw [hvalue] at hnode
    cases hnode
  have hparts : NodeKind.document.parts? = some ("lines", .line) := rfl
  have htype : lookup? members "_type" = some (.string NodeKind.document.name) := rfl
  have hitems : lookup? members "lines" = some (.array ([good] ++ bad :: [.integer 0])) := rfl
  obtain ⟨e, he, hmembers, -⟩ := Node.ofValue_first_defect hparts htype hitems hgood hbad
  refine ⟨⟨hparts, htype, hitems, hgood, hbad⟩, hmembers.trans ?_⟩
  cases he with
  | unread h =>
    rw [hvalue] at h
    exact h.symm
  | other h _ =>
    rw [hvalue] at h
    cases h

end ScriptSpans
