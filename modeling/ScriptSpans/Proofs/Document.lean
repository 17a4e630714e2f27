import ScriptSpans.Proofs.Feed
import Mathlib.Data.List.Chain

namespace ScriptSpans

open Markup

/-- The spans of a line are the parts of `raw`, one after the other and each in markup. -/
structure Line.Partitions (raw : String) (line : Line) : Prop where
  slices : ∃ slices : List String, (∀ slice ∈ slices, slice ≠ "") ∧ String.join slices = raw ∧
    line.spans.map Span.text = slices.map escape ∧
    line.spans.map (fun span ↦ unescape span.text) = slices
  nonempty : ∀ span ∈ line.spans, span.text ≠ ""
  source : line.source = raw
  apart : line.spans.IsChain (fun a b ↦ ¬ (a.category = .plain ∧ b.category = .plain))
  empty : raw = "" → line.spans = []

namespace Raw

variable {text : List Char} {pieces : List Piece}

theorem Slices.join_chars (h : Slices text pieces) :
    String.join (pieces.map (fun piece ↦ String.ofList piece.chars)) = String.ofList text := by
  rw [← String.toList_inj, String.toList_join, List.flatMap_map, String.toList_ofList, ← h.joined]
  exact List.flatMap_congr (fun piece _ ↦ String.toList_ofList)

theorem Slices.join_text (h : Slices text pieces) :
    String.join ((pieces.map Piece.span).map Span.text) = escape (String.ofList text) := by
  rw [← String.toList_inj, String.toList_join, List.map_map, List.flatMap_map, escape,
    String.toList_ofList, String.toList_ofList, ← h.joined]
  clear h
  induction pieces with
  | nil => rfl
  | cons piece later ih =>
    rw [List.flatMap_cons, List.flatMap_cons, escapeList_append, ih]
    congr 1
    exact String.toList_ofList

theorem Slices.partitions (h : Slices text pieces) (lineno : Int) :
    Line.Partitions (String.ofList text) ⟨pieces.map Piece.span, lineno⟩ where
  slices := by
    refine ⟨pieces.map (fun piece ↦ String.ofList piece.chars), ?_, h.join_chars, ?_, ?_⟩
    · intro slice hslice
      obtain ⟨piece, hpiece, rfl⟩ := List.mem_map.mp hslice
      rw [ne_eq, String.ofList_eq_empty_iff]
      exact h.nonempty piece hpiece
    · rw [List.map_map, List.map_map]
      exact List.map_congr_left (fun piece _ ↦ piece.span_text)
    · rw [List.map_map]
      refine List.map_congr_left (fun piece _ ↦ ?_)
      rw [Function.comp_apply, piece.span_text, unescape_escape]
  nonempty := by
    intro span hspan
    obtain ⟨piece, hpiece, rfl⟩ := List.mem_map.mp hspan
    have hpos := width_pos (h.nonempty piece hpiece)
    rw [ne_eq, Piece.span, String.ofList_eq_empty_iff, ← List.length_eq_zero_iff]
    exact Nat.ne_of_gt hpos
  source := by rw [Line.source, Line.text, h.join_text, unescape_escape]
  apart := by
    rw [List.isChain_map]
    exact h.chain
  empty := by
    intro hempty
    rw [String.ofList_eq_empty_iff] at hempty
    cases pieces with
    | nil => rfl
    | cons piece later =>
      have hjoined := h.joined
      rw [hempty, List.flatMap_cons, List.append_eq_nil_iff] at hjoined
      exact absurd hjoined.1 (h.nonempty piece List.mem_cons_self)

end Raw

theorem Line.partitions_ofSource (config : Config) (raw : String) (lineno : Int) :
    (Line.ofSource config raw lineno).value.Partitions raw := by
  have hpartitions := (Raw.slices_piecesOf config raw.toList).partitions lineno
  rw [String.ofList_toList] at hpartitions
  rw [Line.ofSource_value]
  exact hpartitions

namespace Document

theorem ofSource_lines (config : Config) (source : String) :
    (Document.ofSource config source).value.lines =
      ((Feed.ofSource config source).lines.zipIdx 1).map
        (fun p ↦ (Line.ofSource config p.1 p.2).value) := by
  exact (Feed.ofSource config source).emitAll_lines _

theorem forall₂_lines (config : Config) (source : String) :
    List.Forall₂ (fun line raw ↦ Line.Partitions raw line)
      (Document.ofSource config source).value.lines
      (Feed.ofSource config source).lines := by
  rw [ofSource_lines]
  exact forall₂_zipIdx (R := fun line raw ↦ Line.Partitions raw line)
    (f := fun raw n ↦ (Line.ofSource config raw n).value)
    (fun raw n ↦ Line.partitions_ofSource config raw n) _ _

theorem map_source_lines (config : Config) (source : String) :
    (Document.ofSource config source).value.lines.map Line.source =
      (Feed.ofSource config source).lines := by
  have hsources :=
    List.forall₂_map_left_iff.mpr ((forall₂_lines config source).imp (fun _ _ h ↦ h.source))
  rwa [List.forall₂_eq_eq_eq] at hsources

theorem map_lineno_lines (config : Config) (source : String) :
    (Document.ofSource config source).value.lines.map Line.lineno =
      (List.range (Document.ofSource config source).value.lines.length).map
        (fun n : Nat ↦ (n : Int) + 1) := by
  have hlineno : ∀ p : String × Nat, (Line.ofSource config p.1 p.2).value.lineno = (p.2 : Int) :=
    fun p ↦ Line.ofSource_lineno config p.1 p.2
  rw [ofSource_lines, List.length_map, List.length_zipIdx, List.map_map]
  calc ((Feed.ofSource config source).lines.zipIdx 1).map
        (Line.lineno ∘ fun p ↦ (Line.ofSource config p.1 p.2).value)
      = ((Feed.ofSource config source).lines.zipIdx 1).map (fun p ↦ (p.2 : Int)) :=
        List.map_congr_left (fun p _ ↦ hlineno p)
    _ = (((Feed.ofSource config source).lines.zipIdx 1).map Prod.snd).map
      (fun n : Nat ↦ (n : Int)) :=
        List.map_map.symm
    _ = (List.range (Feed.ofSource config source).lines.length).map
      (fun n : Nat ↦ (n : Int) + 1) := by
        rw [List.zipIdx_map_snd, List.range'_eq_map_range, List.map_map]
        exact List.map_congr_left (fun n _ ↦ by simp [Int.add_comm])

/-- A document holds the lines of its snippet, each as a partition, numbered from one. -/
theorem ofSource_partitions (config : Config) (source : String) :
    let text := if config.trimSnippet then Text.trim source else source
    let doc := (Document.ofSource config source).value
    doc.source = text ∧
      doc.lines.map Line.lineno = (List.range doc.lines.length).map (fun n : Nat ↦ (n : Int) + 1) ∧
      (text = "" → doc.lines = []) ∧
      (text ≠ "" → ∃ raws : List String, raws ≠ [] ∧ (∀ raw ∈ raws, '\n' ∉ raw.toList) ∧
        "\n".intercalate raws = text ∧ List.Forall₂ (fun line raw ↦ Line.Partitions raw line)
          doc.lines raws) := by
  intro text doc
  have htext : (Feed.ofSource config source).source = text := rfl
  refine ⟨?_, map_lineno_lines config source, ?_, ?_⟩
  · rw [Document.source, map_source_lines, Feed.intercalate_lines, htext]
  · intro hempty
    rw [ofSource_lines, Feed.lines_of_empty (htext.trans hempty)]
    rfl
  · intro hne
    have hne' := htext ▸ hne
    exact ⟨_, Feed.lines_ne_nil hne', fun _ ↦ Feed.not_mem_of_mem_lines,
      (Feed.intercalate_lines _).trans htext, forall₂_lines config source⟩

end Document

end ScriptSpans
