import ScriptSpans.Proofs.Document
import ScriptSpans.Proofs.Html.Coverage
import ScriptSpans.Proofs.Markup.Tags

namespace ScriptSpans

open Markup

def ClassMap.Total (classes : ClassMap) : Prop := ∀ category, (classes category).isSome

def ClassMap.Avoids (classes : ClassMap) (c : Char) : Prop :=
  ∀ category name, classes category = some (.classed name) → c ∉ name.toList

namespace Html

def openingTag (name : String) : List Char :=
  ['s', 'p', 'a', 'n', ' ', 'c', 'l', 'a', 's', 's', '=', '\x22'] ++ name.toList ++ ['\x22']

def closingTag : List Char := ['/', 's', 'p', 'a', 'n']

/-- Flat markup, with the text that it shows: escaped text and elements under the classes of the
map, each closed before the next one opens. -/
inductive Flat (classes : ClassMap) : List Char → List Char → Prop
  | nil : Flat classes [] []
  | bare {markup shown : List Char} (text : List Char) :
      Flat classes markup shown → Flat classes (escapeList text ++ markup) (text ++ shown)
  | element {category : Category} {name : String} {markup shown : List Char} (text : List Char) :
      classes category = some (.classed name) → Flat classes markup shown →
      Flat classes ('<' :: openingTag name ++
        '>' :: (escapeList text ++ ('<' :: closingTag ++ '>' :: markup)))
        (text ++ shown)

variable {classes : ClassMap}

theorem toList_spanElement (name body : String) :
    (spanElement name body).toList =
      '<' :: openingTag name ++ '>' :: (body.toList ++ ('<' :: closingTag ++ ['>'])) := by
  have hopen : "<span class=\"".toList =
      '<' :: ['s', 'p', 'a', 'n', ' ', 'c', 'l', 'a', 's', 's', '=', '\x22'] := by
    simp
  have hend : "\">".toList = ['\x22', '>'] := by simp
  have hclose : "</span>".toList = '<' :: closingTag ++ ['>'] := by simp [closingTag]
  have happend : ∀ x y z : String, (x ++ name ++ y ++ body ++ z).toList =
      x.toList ++ name.toList ++ y.toList ++ body.toList ++ z.toList := by
    intro x y z
    simp only [String.toList_append]
  calc (spanElement name body).toList
    _ = "<span class=\"".toList ++ name.toList ++ "\">".toList ++ body.toList ++ "</span>".toList :=
      happend _ _ _
    _ = '<' :: openingTag name ++ '>' :: (body.toList ++ ('<' :: closingTag ++ ['>'])) := by
      rw [hopen, hend, hclose]
      simp only [openingTag, List.cons_append, List.append_assoc, List.nil_append]

theorem not_isBracket_class (hopen : classes.Avoids '<') (hclose : classes.Avoids '>')
    {category : Category} {name : String} (hclass : classes category = some (.classed name)) :
    ∀ c ∈ name.toList, isBracket c = false := by
  intro c hc
  have hlt : c ≠ '<' := fun heq ↦ hopen category name hclass (heq ▸ hc)
  have hgt : c ≠ '>' := fun heq ↦ hclose category name hclass (heq ▸ hc)
  simp [isBracket, hlt, hgt]

theorem not_isBracket_openingTag (hopen : classes.Avoids '<') (hclose : classes.Avoids '>')
    {category : Category} {name : String} (hclass : classes category = some (.classed name)) :
    ∀ c ∈ openingTag name, isBracket c = false := by
  intro c hc
  rw [openingTag, List.mem_append, List.mem_append] at hc
  rcases hc with (hc | hc) | hc
  · revert c
    simp [isBracket]
  · exact not_isBracket_class hopen hclose hclass c hc
  · revert c
    simp [isBracket]

theorem Flat.withoutTags {markup shown : List Char} (h : Flat classes markup shown)
    (hopen : classes.Avoids '<') (hclose : classes.Avoids '>') : withoutTags markup =
    escapeList shown := by
  have htext : ∀ text : List Char, '<' ∉ escapeList text :=
    fun text hmem ↦ Bool.noConfusion (not_isBracket_of_mem_escapeList _ hmem)
  induction h with
  | nil => rfl
  | bare text _ ih => rw [withoutTags_text (htext text), ih, escapeList_append]
  | element text hclass _ ih =>
    have hclosing : ∀ c ∈ closingTag, isBracket c = false := by simp [closingTag, isBracket]
    rw [withoutTags_tag (not_isBracket_openingTag hopen hclose hclass), withoutTags_text
      (htext text), withoutTags_tag hclosing, ih, escapeList_append]

theorem Flat.not_mem_break {markup shown : List Char} (h : Flat classes markup shown)
    (hbreak : classes.Avoids '\n') (hshown : '\n' ∉ shown) : '\n' ∉ markup := by
  have htext : ∀ text : List Char, '\n' ∉ text → '\n' ∉ escapeList text :=
    fun text ↦ not_mem_escapeList (by decide)
  induction h with
  | nil => exact hshown
  | bare text _ ih =>
    rw [List.mem_append, not_or] at hshown ⊢
    exact ⟨htext text hshown.1, ih hshown.2⟩
  | @element category name markup shown text hclass _ ih =>
    rw [List.mem_append, not_or] at hshown
    have hname := hbreak category name hclass
    have htext := htext text hshown.1
    have hmarkup := ih hshown.2
    simp [openingTag, closingTag, hname, htext, hmarkup]

theorem ofSpans_cons (htotal : classes.Total) {lineno : Int} (span : Span) {later : List Span}
    {markup : String} (h : ofSpans classes lineno later = .ok markup) :
    ∃ styling, classes span.category = some styling ∧
      ofSpans classes lineno (span :: later) = .ok (styled span.text styling ++ markup) := by
  obtain ⟨styling, hstyling⟩ := Option.isSome_iff_exists.mp (htotal span.category)
  refine ⟨styling, hstyling, ?_⟩
  rw [ofSpans, hstyling]
  dsimp only
  rw [h]
  rfl

/-- What holds of each line when it is written and finished holds of the lines of the result. -/
theorem ofLines_ok {α : Type} {finish : Line → String → Except Fault String} {R : String → α → Prop}
    {lines : List Line} {as : List α}
    (h : List.Forall₂ (fun line a ↦ ∃ body markup, ofLine classes line = .ok body ∧
      finish line body = .ok markup ∧ R markup a) lines as) :
    ∃ markups, ofLines classes finish lines = .ok markups ∧ List.Forall₂ R markups as := by
  induction h with
  | nil => exact ⟨[], rfl, .nil⟩
  | cons hline _ ih =>
    obtain ⟨body, markup, hbody, hfinish, hmarkup⟩ := hline
    obtain ⟨markups, hmarkups, hlater⟩ := ih
    rw [ofLines, hbody, Except.bind, hfinish]
    dsimp only
    rw [hmarkups]
    exact ⟨_, rfl, .cons hmarkup hlater⟩

theorem ofSpans_flat (htotal : classes.Total) (lineno : Int) {spans : List Span}
    {slices : List String} (htexts : spans.map Span.text = slices.map escape) :
    ∃ markup, ofSpans classes lineno spans = .ok markup ∧
      Flat classes markup.toList (slices.flatMap String.toList) := by
  induction spans generalizing slices with
  | nil =>
    obtain rfl := List.map_eq_nil_iff.mp htexts.symm
    exact ⟨"", rfl, .nil⟩
  | cons span later ih =>
    obtain ⟨slice, slices, rfl⟩ :=
      List.exists_cons_of_ne_nil (l := slices) (by rintro rfl; cases htexts)
    obtain ⟨hslice, hslices⟩ := List.cons.inj htexts
    obtain ⟨markup, hmarkup, hflat⟩ := ih hslices
    obtain ⟨styling, hstyling, hspans⟩ := ofSpans_cons htotal span hmarkup
    refine ⟨_, hspans, ?_⟩
    rw [String.toList_append, List.flatMap_cons, hslice]
    cases styling with
    | bare =>
      rw [styled, escape, String.toList_ofList]
      exact .bare slice.toList hflat
    | classed name =>
      have helement := Flat.element slice.toList hstyling hflat
      rw [styled, toList_spanElement, escape, String.toList_ofList]
      simpa only [List.cons_append, List.append_assoc, List.nil_append] using helement

theorem ofLine_flat (htotal : classes.Total) {line : Line} {raw : String}
    (h : line.Partitions raw) :
    ∃ markup, ofLine classes line = .ok markup ∧ Flat classes markup.toList raw.toList := by
  obtain ⟨slices, -, hjoin, htexts, -⟩ := h.slices
  have hflat := ofSpans_flat htotal line.lineno htexts
  rwa [← String.toList_join, hjoin] at hflat

theorem ofLines_flat (htotal : classes.Total) {lines : List Line} {raws : List String}
    (h : List.Forall₂ (fun line raw ↦ Line.Partitions raw line) lines raws) :
    ∃ markups, ofLines classes (fun _ body ↦ .ok body) lines = .ok markups ∧
      List.Forall₂ (fun markup raw ↦ Flat classes markup.toList raw.toList) markups raws := by
  refine ofLines_ok (h.imp fun _ _ hline ↦ ?_)
  obtain ⟨markup, hmarkup, hflat⟩ := ofLine_flat htotal hline
  exact ⟨markup, markup, hmarkup, rfl, hflat⟩

theorem not_mem_break_of_flat {markups raws : List (List Char)}
    (h : List.Forall₂ (Flat classes) markups raws) (hbreak : classes.Avoids '\n')
    (hraws : ∀ raw ∈ raws, '\n' ∉ raw) : ∀ markup ∈ markups, '\n' ∉ markup := by
  induction h with
  | nil => exact List.forall_mem_nil _
  | cons hflat _ ih =>
    obtain ⟨hraw, hlater⟩ := List.forall_mem_cons.mp hraws
    exact List.forall_mem_cons.mpr ⟨hflat.not_mem_break hbreak hraw, ih hlater⟩

/-- A snippet is written as one piece of flat markup for each of its lines, and what the pieces show
without their tags is the lines themselves. -/
theorem ofDocument_ofSource (config : Config) (source : String) (classes : ClassMap)
    (htotal : classes.Total) (hopen : classes.Avoids '<') (hclose : classes.Avoids '>')
    (hbreak : classes.Avoids '\n') :
    let text := if config.trimSnippet then Text.trim source else source
    let doc := (Document.ofSource config source).value
    ∃ markup, ofDocument classes doc = .ok markup ∧
      (doc.lines ≠ [] → (markup.toList.splitOn '\n').length = doc.lines.length ∧
        List.Forall₂ (fun piece raw ↦ Flat classes piece raw ∧
          unescapeList (Markup.withoutTags piece) = raw)
          (markup.toList.splitOn '\n') (text.toList.splitOn '\n')) := by
  intro text doc
  have htext : (Feed.ofSource config source).source = text := rfl
  have hlines := Document.forall₂_lines config source
  obtain ⟨markups, hmarkups, hflat⟩ := ofLines_flat htotal hlines
  refine ⟨"\n".intercalate markups, ?_, fun hne ↦ ?_⟩
  · rw [ofDocument, hmarkups]
    rfl
  · have hsource : text ≠ "" := by
      intro hempty
      rw [Document.ofSource_lines, Feed.lines_of_empty (htext.trans hempty)] at hne
      exact hne rfl
    have hraws :
        (Feed.ofSource config source).lines = (text.toList.splitOn '\n').map String.ofList := by
      rw [Feed.lines_of_ne (htext.trans_ne hsource), htext]
    have hchars :
        List.Forall₂ (Flat classes) (markups.map String.toList) (text.toList.splitOn '\n') := by
      rw [hraws, List.forall₂_map_right_iff] at hflat
      exact List.forall₂_map_left_iff.mpr
        (hflat.imp (fun _ raw h ↦ String.toList_ofList (l := raw) ▸ h))
    have hsome : markups.map String.toList ≠ [] := by
      intro hnil
      rw [hnil, List.forall₂_nil_left_iff] at hchars
      exact List.splitOn_ne_nil _ _ hchars
    have hbreaks := not_mem_break_of_flat hchars hbreak (fun _ ↦ not_mem_of_mem_splitOn)
    -- No piece holds a line break, so splitting undoes the joining.
    have hpieces : ("\n".intercalate markups).toList.splitOn '\n' = markups.map String.toList := by
      rw [String.toList_intercalate]
      exact List.splitOn_intercalate '\n' hbreaks hsome
    rw [hpieces]
    refine ⟨?_, hchars.imp (fun piece raw h ↦ ⟨h, ?_⟩)⟩
    · rw [hchars.length_eq, hlines.length_eq, hraws, List.length_map]
    · rw [h.withoutTags hopen hclose, unescapeList_escapeList]

theorem total_oneClass (name : String) :
    ClassMap.Total
      (fun category ↦ if category = .plain then some .bare else some (.classed name)) := by
  intro category
  cases category <;> rfl

theorem avoids_oneClass {name : String} {c : Char} (h : c ∉ name.toList) :
    ClassMap.Avoids (fun category ↦ if category = .plain then some .bare else some (.classed name))
      c := by
  intro category other hclass
  cases category <;> cases hclass <;> exact h

theorem ofDocument_ofSource_quoted :
    let classes : ClassMap :=
      fun category ↦ if category = .plain then some .bare else some (.classed "a\" &lt;")
    let doc := (Document.ofSource {} "<x>\n\n'&lt;'").value
    (classes.Total ∧ classes.Avoids '<' ∧ classes.Avoids '>' ∧ classes.Avoids '\n') ∧
      doc.lines ≠ [] ∧
      ∃ markup, ofDocument classes doc = .ok markup ∧
        (markup.toList.splitOn '\n').map (fun piece ↦ unescapeList (Markup.withoutTags piece)) =
          [['<', 'x', '>'], [], ['\'', '&', 'l', 't', ';', '\'']] := by
  intro classes doc
  have htotal : classes.Total := total_oneClass _
  have hopen : classes.Avoids '<' := avoids_oneClass (by simp)
  have hclose : classes.Avoids '>' := avoids_oneClass (by simp)
  have hbreak : classes.Avoids '\n' := avoids_oneClass (by simp)
  have hlines : doc.lines ≠ [] := by
    rw [Document.ofSource_lines]
    simp [Feed.lines_ne_nil, Feed.ofSource]
  obtain ⟨markup, hmarkup, hpieces⟩ :=
    ofDocument_ofSource {} "<x>\n\n'&lt;'" classes htotal hopen hclose hbreak
  have hshown := List.forall₂_map_left_iff.mpr ((hpieces hlines).2.imp (fun _ _ h ↦ h.2))
  rw [List.forall₂_eq_eq_eq] at hshown
  refine ⟨⟨htotal, hopen, hclose, hbreak⟩, hlines, markup, hmarkup, hshown.trans ?_⟩
  simp [List.splitOn_cons_eq_if_modifyHead]

end Html

end ScriptSpans
