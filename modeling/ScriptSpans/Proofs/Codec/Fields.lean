import ScriptSpans.Codec
import ScriptSpans.Proofs.Traversal
import Mathlib.Data.List.Induction

namespace ScriptSpans

open Json

namespace Codec

variable {members : List (String × Value)} {name : String}

theorem lookup?_concat {α : Type} (members : List (String × α)) (member : String × α)
    (name : String) :
    lookup? (members ++ [member]) name =
      if member.1 = name then some member.2 else lookup? members name := by
  rw [lookup?, List.foldl_append]
  rfl

theorem lookup?_map {α β : Type} (f : α → β) (members : List (String × α)) (name : String) :
    lookup? (members.map (fun member ↦ (member.1, f member.2))) name =
      (lookup? members name).map f := by
  induction members using List.reverseRecOn with
  | nil => rfl
  | append_singleton members member ih =>
    rw [List.map_append, List.map_singleton, lookup?_concat, lookup?_concat, ih]
    split_ifs <;> rfl

theorem lookup?_filter {α : Type} (keep : String → Bool) (members : List (String × α))
    (name : String) :
    lookup? (members.filter (fun member ↦ keep member.1)) name =
      if keep name then lookup? members name else none := by
  induction members using List.reverseRecOn with
  | nil => exact (ite_self _).symm
  | append_singleton members member ih =>
    rw [List.filter_append, lookup?_concat]
    by_cases hmember : keep member.1
    · rw [List.filter_cons, List.filter_nil, if_pos hmember, lookup?_concat, ih]
      by_cases hname : member.1 = name
      · rw [if_pos hname, if_pos hname, if_pos (hname ▸ hmember)]
      · rw [if_neg hname, if_neg hname]
    · rw [List.filter_cons, List.filter_nil, if_neg hmember, List.append_nil, ih]
      by_cases hname : member.1 = name
      · rw [if_neg (hname ▸ hmember), if_neg (hname ▸ hmember)]
      · rw [if_neg hname]

theorem mem_of_lookup? {α : Type} {members : List (String × α)} {name : String} {a : α}
    (h : lookup? members name = some a) : (name, a) ∈ members := by
  induction members using List.reverseRecOn with
  | nil => cases h
  | append_singleton members member ih =>
    rw [lookup?_concat] at h
    split_ifs at h with hname
    · cases h
      exact List.mem_append_right _ (List.mem_singleton.mpr (Prod.ext hname.symm rfl))
    · exact List.mem_append_left _ (ih h)

theorem nodes_eq_map (items : List Value) : nodes items = items.map node := by
  induction items with
  | nil => rfl
  | cons item items ih => rw [nodes, ih, List.map_cons]

theorem childrenOf_eq_map (members : List (String × Value)) :
    childrenOf members = members.map (fun member ↦ (member.1, itemsOf member.2)) := by
  induction members with
  | nil => rfl
  | cons member members ih => rw [childrenOf, ih, List.map_cons]

theorem childrenOf_items {items : List Value} (h : lookup? members name = some (.array items)) :
    (lookup? (childrenOf members) name).getD [] = items.map node := by
  rw [childrenOf_eq_map, lookup?_map, h, Option.map_some, Option.getD_some, itemsOf, nodes_eq_map]

theorem kindOf_eq_ok_iff {kind : NodeKind} :
    kindOf members = .ok kind ↔ lookup? members "_type" = some (.string kind.name) := by
  constructor
  · intro h
    rw [kindOf] at h
    split at h <;> cases h <;> assumption
  · intro h
    rw [kindOf, h]
    cases kind <;> rfl

theorem field_eq_ok_iff {α : Type} {shape : Shape α} {kind : NodeKind} {a : α} :
    field shape kind members name = .ok a ↔ lookup? members name = some (shape.make a) := by
  rw [field]
  cases lookup? members name with
  | none => simp
  | some value =>
    rw [Option.some.injEq, ← shape.read?_eq_some_iff]
    dsimp only
    cases shape.read? value <;> simp

theorem categoryOf_eq_ok_iff {category : Category} :
    categoryOf name = .ok category ↔ name = category.name := by
  constructor
  · intro h
    rw [categoryOf] at h
    split at h
    · cases h
    · next found hfound =>
      cases h
      rw [Category.ofName?] at hfound
      have hname := List.find?_some (p := fun c : Category ↦ decide (c.name = name)) hfound
      exact (of_decide_eq_true hname).symm
  · rintro rfl
    rw [categoryOf, Category.ofName?_name]

theorem asPart_eq_ok_iff {α : Type} {part : Part α} {n : Node} {a : α} :
    asPart part n = .ok a ↔ n = part.make a := by
  rw [asPart, ← part.read?_eq_some_iff]
  cases part.read? n <;> simp

theorem collect_eq_mapM {α : Type} (check : Node → Except CodecError α)
    (results : List (Except CodecError Node)) :
    collect check results = results.mapM (· >>= check) := by
  induction results with
  | nil => rfl
  | cons result later ih =>
    rw [List.mapM_cons, ← ih]
    cases result with
    | error e => rfl
    | ok node =>
      rw [collect]
      cases hnode : check node <;> cases collect check later <;>
        simp [hnode, bind, Except.bind, pure, Except.pure, Except.map]

theorem collect_eq_ok_iff {α : Type} {part : Part α} {results : List (Except CodecError Node)}
    {as : List α} :
    collect (asPart part) results = .ok as ↔
      List.Forall₂ (fun result a ↦ result = .ok (part.make a)) results as := by
  have hpasses : ∀ (result : Except CodecError Node) a,
      result >>= asPart part = .ok a ↔ result = .ok (part.make a) := by
    intro result a
    rw [bind_eq_ok_iff]
    simp only [asPart_eq_ok_iff, exists_eq_right]
  rw [collect_eq_mapM, mapM_eq_ok_iff]
  simp only [hpasses]

/-- The first item that is missing or fails the check decides, whatever comes after it. -/
theorem collect_items_eq_error_iff {α : Type} {check : Node → Except CodecError α} {e : CodecError}
    {items : List Value} (h : lookup? members name = some (.array items)) :
    collect check ((lookup? (childrenOf members) name).getD []) = .error e ↔
      ∃ before bad after, items = before ++ bad :: after ∧
        (∀ item ∈ before, ∃ a, node item >>= check = .ok a) ∧ node bad >>= check = .error e := by
  have hpasses : ∀ before : List Value,
      (∀ result ∈ before.map node, ∃ a, result >>= check = .ok a) ↔
        ∀ item ∈ before, ∃ a, node item >>= check = .ok a :=
    fun before ↦ List.forall_mem_map (P := fun result ↦ ∃ a, result >>= check = .ok a)
  rw [childrenOf_items h, collect_eq_mapM, mapM_eq_error_iff]
  constructor
  · rintro ⟨results, result, more, hmap, hbefore, hbad⟩
    obtain ⟨before, rest, rfl, rfl, hrest⟩ := List.map_eq_append_iff.mp hmap
    obtain ⟨bad, after, rfl, rfl, -⟩ := List.map_eq_cons_iff.mp hrest
    exact ⟨before, bad, after, rfl, (hpasses before).mp hbefore, hbad⟩
  · rintro ⟨before, bad, after, rfl, hbefore, hbad⟩
    refine ⟨before.map node, node bad, after.map node, ?_, (hpasses before).mpr hbefore, hbad⟩
    rw [List.map_append, List.map_cons]

theorem partsOf_eq_ok_iff {α : Type} {part : Part α} {kind : NodeKind} {as : List α} :
    partsOf part kind name members (childrenOf members) = .ok as ↔
      ∃ items, lookup? members name = some (.array items) ∧
        List.Forall₂ (fun item a ↦ node item = .ok (part.make a)) items as := by
  simp only [partsOf, bind_eq_ok_iff, field_eq_ok_iff]
  refine exists_congr fun items ↦ and_congr_right fun hitems ↦ ?_
  rw [childrenOf_items hitems, collect_eq_ok_iff, List.forall₂_map_left_iff]

theorem spanOf_eq_ok_iff {span : Span} :
    spanOf members = .ok span ↔ lookup? members "text" = some (.string span.text) ∧
      lookup? members "category" = some (.string span.category.name) := by
  simp only [spanOf, bind_eq_ok_iff, field_eq_ok_iff, categoryOf_eq_ok_iff]
  constructor
  · rintro ⟨text, htext, name, hname, category, rfl, hspan⟩
    cases hspan
    exact ⟨htext, hname⟩
  · rintro ⟨htext, hname⟩
    exact ⟨span.text, htext, span.category.name, hname, span.category, rfl, rfl⟩

theorem lineOf_eq_ok_iff {line : Line} :
    lineOf members (childrenOf members) = .ok line ↔
      lookup? members "lineno" = some (.integer line.lineno) ∧
      ∃ items, lookup? members "spans" = some (.array items) ∧
        List.Forall₂ (fun item span ↦ node item = .ok (.span span)) items line.spans := by
  simp only [lineOf, bind_eq_ok_iff, partsOf_eq_ok_iff, field_eq_ok_iff]
  constructor
  · rintro ⟨spans, hspans, lineno, hlineno, hline⟩
    cases hline
    exact ⟨hlineno, hspans⟩
  · rintro ⟨hlineno, hspans⟩
    exact ⟨line.spans, hspans, line.lineno, hlineno, rfl⟩

theorem documentOf_eq_ok_iff {doc : Document} :
    documentOf members (childrenOf members) = .ok doc ↔
      ∃ items, lookup? members "lines" = some (.array items) ∧
        List.Forall₂ (fun item line ↦ node item = .ok (.line line)) items doc.lines := by
  simp only [documentOf, bind_eq_ok_iff, partsOf_eq_ok_iff]
  constructor
  · rintro ⟨lines, hlines, hdoc⟩
    cases hdoc
    exact hlines
  · rintro hlines
    exact ⟨doc.lines, hlines, rfl⟩

theorem ofObject_eq_span_iff {children : Children} {span : Span} :
    ofObject members children = .ok (.span span) ↔
      kindOf members = .ok .span ∧ spanOf members = .ok span := by
  rw [ofObject]
  split <;> simp [*, map_eq_ok_iff]

theorem ofObject_eq_line_iff {children : Children} {line : Line} :
    ofObject members children = .ok (.line line) ↔
      kindOf members = .ok .line ∧ lineOf members children = .ok line := by
  rw [ofObject]
  split <;> simp [*, map_eq_ok_iff]

theorem ofObject_eq_document_iff {children : Children} {doc : Document} :
    ofObject members children = .ok (.document doc) ↔
      kindOf members = .ok .document ∧ documentOf members children = .ok doc := by
  rw [ofObject]
  split <;> simp [*, map_eq_ok_iff]

end Codec

end ScriptSpans
