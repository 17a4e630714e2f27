import ScriptSpans.Proofs.Markup.Escape
import Mathlib.Data.List.Basic

namespace ScriptSpans.Markup

/-- No brackets stand in the text, and no ampersand but that of an entity. -/
structure IsWritten (text : List Char) : Prop where
  left : '<' ∉ text
  right : '>' ∉ text
  ampersand : ∀ rest, '&' :: rest <:+ text → ∃ e ∈ entities, e.name <+: '&' :: rest

theorem isWritten_cons {c : Char} {text : List Char} :
    IsWritten (c :: text) ↔
      (c ≠ '<' ∧ c ≠ '>' ∧ (c = '&' → ∃ e ∈ entities, e.name <+: c :: text)) ∧ IsWritten text := by
  constructor
  · intro h
    refine ⟨⟨?_, ?_, ?_⟩, ⟨?_, ?_, ?_⟩⟩
    · exact fun hc ↦ h.left (hc ▸ List.mem_cons_self)
    · exact fun hc ↦ h.right (hc ▸ List.mem_cons_self)
    · rintro rfl
      exact h.ampersand text List.suffix_rfl
    · exact fun hmem ↦ h.left (List.mem_cons_of_mem c hmem)
    · exact fun hmem ↦ h.right (List.mem_cons_of_mem c hmem)
    · exact fun rest hrest ↦ h.ampersand rest (hrest.trans (List.suffix_cons c text))
  · rintro ⟨⟨hleft, hright, hamp⟩, h⟩
    refine ⟨?_, ?_, ?_⟩
    · exact List.not_mem_cons_of_ne_of_not_mem hleft.symm h.left
    · exact List.not_mem_cons_of_ne_of_not_mem hright.symm h.right
    · intro rest hrest
      rcases List.suffix_cons_iff.mp hrest with heq | hrest
      · obtain ⟨rfl, rfl⟩ := List.cons.inj heq
        exact hamp rfl
      · exact h.ampersand rest hrest

theorem isWritten_append_of_not_markup {block : List Char} (h : ∀ c ∈ block, isMarkup c = false)
    (rest : List Char) :
    IsWritten (block ++ rest) ↔ IsWritten rest := by
  induction block with
  | nil => rfl
  | cons c block ih =>
    obtain ⟨hc, hblock⟩ := List.forall_mem_cons.mp h
    simp only [isMarkup, Bool.or_eq_false_iff, decide_eq_false_iff_not] at hc
    rw [List.cons_append, isWritten_cons, ih hblock]
    exact and_iff_right ⟨hc.1.2, hc.2, fun hamp ↦ absurd hamp hc.1.1⟩

section entity

variable {e : Entity} (he : e ∈ entities)
include he

theorem entity_cases :
    ∃ name, e.name = '&' :: name ∧ (∀ c ∈ name, isMarkup c = false) ∧
      escapeChar e.char = e.name := by
  simp only [entities, List.mem_cons, List.not_mem_nil, or_false] at he
  rcases he with rfl | rfl | rfl
  · exact ⟨['a', 'm', 'p', ';'], rfl, by simp [isMarkup], rfl⟩
  · exact ⟨['l', 't', ';'], rfl, by simp [isMarkup], rfl⟩
  · exact ⟨['g', 't', ';'], rfl, by simp [isMarkup], rfl⟩

theorem isWritten_entity (rest : List Char) : IsWritten (e.name ++ rest) ↔ IsWritten rest := by
  obtain ⟨name, hname, hplain, -⟩ := entity_cases he
  have hbegins : ∃ e ∈ entities, e.name <+: '&' :: (name ++ rest) :=
    ⟨e, he, hname ▸ List.prefix_append ('&' :: name) rest⟩
  rw [hname, List.cons_append, isWritten_cons, isWritten_append_of_not_markup hplain]
  exact and_iff_right ⟨by decide, by decide, fun _ ↦ hbegins⟩

theorem escapeList_entity_eq_iff {text rest : List Char}
    (h : escapeList text = rest ↔ IsWritten rest) :
    escapeList (e.char :: text) = e.name ++ rest ↔ IsWritten (e.name ++ rest) := by
  obtain ⟨name, -, -, hescape⟩ := entity_cases he
  rw [escapeList_cons, hescape, List.append_right_inj, isWritten_entity he, h]

end entity

theorem exists_entity_of_markup {c : Char} (h : isMarkup c) :
    ∃ e ∈ entities, e.name = escapeChar c := by
  rcases markup_cases h with rfl | rfl | rfl
  · exact ⟨⟨'&', _⟩, List.mem_cons_self, rfl⟩
  · exact ⟨⟨'<', _⟩, List.mem_cons_of_mem _ List.mem_cons_self, rfl⟩
  · exact ⟨⟨'>', _⟩, List.mem_cons_of_mem _ (List.mem_cons_of_mem _ List.mem_cons_self), rfl⟩

/-- Where no entity begins, a text is written just if its first character is not markup and the rest
is written. -/
theorem escapeList_cons_eq_iff {c : Char} {text rest : List Char}
    (hnone : ¬ ∃ e ∈ entities, e.name <+: c :: rest) (h : escapeList text = rest ↔ IsWritten rest) :
    escapeList (c :: text) = c :: rest ↔ IsWritten (c :: rest) := by
  by_cases hc : isMarkup c
  · apply iff_of_false
    · intro heq
      obtain ⟨e, he, hname⟩ := exists_entity_of_markup hc
      rw [escapeList_cons, ← hname] at heq
      exact hnone ⟨e, he, _, heq⟩
    · intro hwritten
      obtain ⟨⟨hleft, hright, hamp⟩, -⟩ := isWritten_cons.mp hwritten
      rcases markup_cases hc with rfl | rfl | rfl
      · exact hnone (hamp rfl)
      · exact hleft rfl
      · exact hright rfl
  · have hmarkup : isMarkup c = false := by simpa using hc
    have hwritten : IsWritten (c :: rest) ↔ IsWritten rest :=
      isWritten_append_of_not_markup (List.forall_mem_singleton.mpr hmarkup) rest
    rw [escapeList_cons_of_not_markup hmarkup, List.cons_inj_right, h, hwritten]

/-- Reading a text and escaping it again changes nothing just if the text is one that escaping
writes. -/
theorem escapeList_decode_eq_iff (text : List Char) :
    escapeList (decode text) = text ↔ IsWritten text := by
  fun_induction decode text with
  | case1 rest ih =>
    exact escapeList_entity_eq_iff (e := ⟨'&', ['&', 'a', 'm', 'p', ';']⟩) (by simp [entities]) ih
  | case2 rest ih =>
    exact escapeList_entity_eq_iff (e := ⟨'<', ['&', 'l', 't', ';']⟩) (by simp [entities]) ih
  | case3 rest ih =>
    exact escapeList_entity_eq_iff (e := ⟨'>', ['&', 'g', 't', ';']⟩) (by simp [entities]) ih
  | case4 c rest hamp hlt hgt ih =>
    refine escapeList_cons_eq_iff ?_ ih
    rintro ⟨e, he, after, heq⟩
    simp only [entities, List.mem_cons, List.not_mem_nil, or_false] at he
    rcases he with rfl | rfl | rfl <;> obtain ⟨hc, hrest⟩ := List.cons.inj heq
    · exact hamp after hc.symm hrest.symm
    · exact hlt after hc.symm hrest.symm
    · exact hgt after hc.symm hrest.symm
  | case5 => exact iff_of_true rfl ⟨List.not_mem_nil, List.not_mem_nil, by simp⟩

/-- Escaping replaces each character by itself, and unescaping reads it back. Unescaping any text is
one pass that never looks again at what it wrote, and escaping brings back the text just if it is
one that escaping writes. -/
theorem escape_unescape (s t : String) :
    escape s = String.ofList (s.toList.flatMap (fun c ↦
        if c = '&' then ['&', 'a', 'm', 'p', ';']
        else if c = '<' then ['&', 'l', 't', ';']
        else if c = '>' then ['&', 'g', 't', ';']
        else [c])) ∧
      unescape (escape s) = s ∧ unescape t = String.ofList (decode t.toList) ∧
      (escape (unescape t) = t ↔ IsWritten t.toList) := by
  refine ⟨?_, unescape_escape s, ?_, ?_⟩
  · rw [escape, escapeList_eq_flatMap]
    exact congrArg _ (List.flatMap_congr (fun c _ ↦ escapeChar_eq c))
  · rw [unescape, unescapeList_eq_decode]
  · rw [← escapeList_decode_eq_iff, ← unescapeList_eq_decode, escape, unescape,
      String.toList_ofList, ← String.toList_inj, String.toList_ofList]

/-- One pass that reads each entity of the table as its character. The number counts the characters
of the last entity that are still to be passed over. -/
def decodeByFrom (table : List Entity) : Nat → List Char → List Char
  | _, [] => []
  | skip + 1, _ :: rest => decodeByFrom table skip rest
  | 0, c :: rest =>
    match table.find? (fun e ↦ e.name.isPrefixOf (c :: rest)) with
    | some e => e.char :: decodeByFrom table (e.name.length - 1) rest
    | none => c :: decodeByFrom table 0 rest

def decodeBy (table : List Entity) (text : List Char) : List Char := decodeByFrom table 0 text

/-- A table by which escaped text can be read back. Its entities begin with an ampersand, which is
itself among the characters that are escaped, and none of them begins with another. -/
structure Readable (table : List Entity) : Prop where
  order : table.Pairwise (fun a b ↦ b.char ∉ a.name)
  marked : ∀ e ∈ table, e.name.head? = some '&'
  ampersand : ∃ e ∈ table, e.char = '&'
  apart : ∀ a ∈ table, ∀ b ∈ table, a.name <+: b.name → a = b

theorem decodeByFrom_skip (table : List Entity) (skip : Nat) (text : List Char) :
    decodeByFrom table skip text = decodeBy table (text.drop skip) := by
  induction text generalizing skip with
  | nil => cases skip <;> rfl
  | cons c rest ih =>
    cases skip with
    | zero => rfl
    | succ skip => exact ih skip

namespace Readable

variable {table : List Entity} (h : Readable table)
include h

theorem find?_name {e : Entity} (he : e ∈ table) (rest : List Char) :
    table.find? (fun d ↦ d.name.isPrefixOf (e.name ++ rest)) = some e := by
  let begins : Entity → Bool := fun d ↦ d.name.isPrefixOf (e.name ++ rest)
  have hself : begins e := List.isPrefixOf_iff_prefix.mpr (List.prefix_append _ _)
  obtain ⟨d, hfind⟩ := Option.isSome_iff_exists.mp (List.find?_isSome.mpr ⟨e, he, hself⟩)
  have hd := List.mem_of_find?_eq_some hfind
  have hbegins : begins d := List.find?_some hfind
  have hprefix := List.isPrefixOf_iff_prefix.mp hbegins
  refine hfind.trans (congrArg some ?_)
  rcases List.prefix_or_prefix_of_prefix hprefix (List.prefix_append e.name rest) with hde | hed
  · exact h.apart d hd e he hde
  · exact (h.apart e he d hd hed).symm

theorem find?_of_ne {c : Char} (hc : c ≠ '&') (rest : List Char) :
    table.find? (fun d ↦ d.name.isPrefixOf (c :: rest)) = none := by
  rw [List.find?_eq_none]
  intro d hd hprefix
  obtain ⟨name, hname⟩ := List.head?_eq_some_iff.mp (h.marked d hd)
  rw [hname, List.isPrefixOf_iff_prefix, List.cons_prefix_cons] at hprefix
  exact hc hprefix.1.symm

theorem decodeBy_escapeCharBy (c : Char) (rest : List Char) :
    decodeBy table (escapeCharBy table c ++ rest) = c :: decodeBy table rest := by
  cases hfind : table.find? (fun e ↦ e.char = c) with
  | none =>
    have hc : c ≠ '&' := by
      rintro rfl
      obtain ⟨e, he, hchar⟩ := h.ampersand
      exact List.find?_eq_none.mp hfind e he (decide_eq_true hchar)
    rw [escapeCharBy, hfind, List.singleton_append, decodeBy, decodeByFrom, h.find?_of_ne hc]
    rfl
  | some e =>
    have he := List.mem_of_find?_eq_some hfind
    have hchar : e.char = c := by simpa using List.find?_some hfind
    obtain ⟨name, hname⟩ := List.head?_eq_some_iff.mp (h.marked e he)
    have hname' := h.find?_name he rest
    rw [hname, List.cons_append] at hname'
    rw [escapeCharBy, hfind]
    dsimp only
    rw [hname, List.cons_append, decodeBy, decodeByFrom, hname']
    dsimp only
    rw [hchar, decodeByFrom_skip, hname, List.length_cons, Nat.add_sub_cancel, List.drop_left]

theorem decodeBy_escapeBy (text : List Char) : decodeBy table (escapeBy table text) = text := by
  rw [escapeBy_eq_flatMap h.order]
  induction text with
  | nil => rfl
  | cons c text ih => rw [List.flatMap_cons, h.decodeBy_escapeCharBy, ih]

end Readable

theorem readable_attributeEntities : Readable attributeEntities where
  order := by decide
  marked := by decide
  ampersand := ⟨_, List.mem_cons_self, rfl⟩
  apart := by simp [attributeEntities, entities]

/-- A text that may stand between quotes or brackets, and what a reader of its entities makes of
it. -/
structure Quotes (written shown : String) : Prop where
  outside : ∀ c ∈ ['<', '>', '\x22', '\x27'], c ∉ written.toList
  decoded : decodeBy attributeEntities written.toList = shown.toList

theorem quotes_escapeAttribute (text : String) : Quotes (escapeAttribute text) text where
  outside := by
    intro c hc
    have hescaped : ∀ c ∈ ['<', '>', '\x22', '\x27'], ∃ e ∈ attributeEntities, e.char = c := by
      simp [attributeEntities, entities]
    have hnames : ∀ c ∈ ['<', '>', '\x22', '\x27'], ∀ e ∈ attributeEntities, c ∉ e.name := by
      simp [attributeEntities, entities]
    rw [escapeAttribute, String.toList_ofList]
    exact not_mem_escapeBy readable_attributeEntities.order (hescaped c hc) (hnames c hc)
  decoded := by
    rw [escapeAttribute, String.toList_ofList, readable_attributeEntities.decodeBy_escapeBy]

theorem quotes_map (text : Option String) : Option.Rel Quotes (text.map escapeAttribute) text := by
  cases text with
  | none => exact .none
  | some text => exact .some (quotes_escapeAttribute text)

end ScriptSpans.Markup
