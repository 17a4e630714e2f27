import ScriptSpans.Presenter
import ScriptSpans.Proofs.Limit
import Mathlib.Data.List.DropRight

namespace ScriptSpans

namespace Text

/-- What is left of `text` without the blanks at both ends. -/
structure IsTrimOf (text part : List Char) : Prop where
  around : ∃ before after, text = before ++ part ++ after ∧ (∀ c ∈ before, isBlank c) ∧
    ∀ c ∈ after, isBlank c
  first : ∀ c ∈ part.head?, ¬ isBlank c
  last : ∀ c ∈ part.getLast?, ¬ isBlank c

variable {text part : List Char}

theorem trimRight_eq_self (h : ∀ c ∈ part.getLast?, ¬ isBlank c) : trimRight part = part :=
  List.rdropWhile_eq_self_iff.mpr (fun hne ↦ h _ (List.getLast?_eq_some_getLast hne))

theorem trimRight_append {after : List Char} (h : ∀ c ∈ after, isBlank c) :
    trimRight (part ++ after) = trimRight part := by
  have hreverse : ∀ c ∈ after.reverse, isBlank c := fun c hc ↦ h c (List.mem_reverse.mp hc)
  rw [trimRight, List.reverse_append, List.dropWhile_append_of_pos hreverse, trimRight]

theorem isTrimOf_trimList (text : List Char) : IsTrimOf text (trimList text) where
  around := by
    have hright :
        trimList text ++ (text.dropWhile isBlank).rtakeWhile isBlank = text.dropWhile isBlank :=
      List.rdropWhile_append_rtakeWhile
    refine ⟨text.takeWhile isBlank, (text.dropWhile isBlank).rtakeWhile isBlank, ?_,
      fun c ↦ List.mem_takeWhile_imp, fun c ↦ List.mem_rtakeWhile_imp⟩
    rw [List.append_assoc, hright, List.takeWhile_append_dropWhile]
  first := by
    intro c hc
    obtain ⟨after, hafter⟩ : trimList text <+: text.dropWhile isBlank :=
      List.rdropWhile_prefix isBlank _
    have hhead : (text.dropWhile isBlank).head? = some c := by
      rw [← hafter, List.head?_append, hc, Option.some_or]
    have hnot := List.head?_dropWhile_not isBlank text
    rw [hhead] at hnot
    simpa using hnot
  last := by
    intro c hc
    obtain ⟨hne, rfl⟩ := List.mem_getLast?_eq_getLast hc
    exact List.rdropWhile_last_not isBlank _ hne

theorem IsTrimOf.eq_trimList (h : IsTrimOf text part) : part = trimList text := by
  obtain ⟨before, after, rfl, hbefore, hafter⟩ := h.around
  rw [trimList, List.append_assoc, List.dropWhile_append_of_pos hbefore]
  cases part with
  | nil =>
    have hnone := List.dropWhile_eq_nil_iff.mpr hafter
    rw [List.nil_append, hnone]
    rfl
  | cons c rest =>
    rw [List.cons_append, List.dropWhile_cons_of_neg (h.first c rfl), ← List.cons_append,
      trimRight_append hafter, trimRight_eq_self h.last]

theorem isTrimOf_iff : IsTrimOf text part ↔ part = trimList text := by
  constructor
  · exact IsTrimOf.eq_trimList
  · rintro rfl
    exact isTrimOf_trimList text

theorem trimList_trimList (text : List Char) : trimList (trimList text) = trimList text := by
  have htrim := isTrimOf_trimList text
  exact (isTrimOf_iff.mp ⟨⟨[], [], by simp, by simp, by simp⟩, htrim.first, htrim.last⟩).symm

end Text

/-- What a snippet comes to depends on the limit and the trimmed text only. -/
theorem Document.ofSource_congr {config other : Config} {source text : String}
    (hlimit : config.maxLineLength = other.maxLineLength)
    (hsource : (Feed.ofSource config source).source = (Feed.ofSource other text).source) :
    Document.ofSource config source = Document.ofSource other text := by
  have hraws : (Feed.ofSource config source).lines = (Feed.ofSource other text).lines := by
    rw [Feed.lines, Feed.lines, hsource]
  have hline (raw : String) (lineno : Int) :
      Line.ofSource config raw lineno = Line.ofSource other raw lineno := by
    simp only [Line.ofSource, Slate.line, Slate.line?, hlimit]
  have hnotice (raw : String) (lineno : Int) :
      Notice.ofLine config raw lineno = Notice.ofLine other raw lineno := by
    simp only [Notice.ofLine, hlimit]
  have hlines :
      (Document.ofSource config source).value.lines =
      (Document.ofSource other text).value.lines := by
    simp only [ofSource_lines, hraws, hline]
  have hnotices :
      (Document.ofSource config source).notices = (Document.ofSource other text).notices := by
    simp only [ofSource_notices, hraws, hnotice]
  exact congrArg₂ Logged.mk (congrArg Document.mk hlines) hnotices

namespace Presenter

variable (p : Presenter) (source : String)

theorem source_feed : (Feed.ofSource p.config source).source = p.copied source := rfl

theorem copied_copied : p.copied (p.copied source) = p.copied source := by
  cases htrim : p.config.trimSnippet with
  | false => simp only [copied, htrim, Bool.false_eq_true, if_false]
  | true =>
    simp only [copied, htrim, if_true, Text.trim, String.toList_ofList]
    rw [Text.trimList_trimList]

theorem source_document : (p.document source).value.source = p.copied source := by
  rw [document, Document.source, Document.map_source_lines, Feed.intercalate_lines, source_feed]

/-- The text to copy is the one that the document shows: the snippet as it is, or without the blanks
around it. Classified without trimming it gives the same document, and neither it nor the document
changes if it is put in the place of the snippet. -/
theorem copied_agrees :
    p.copied source = (p.document source).value.source ∧
      p.document source = Document.ofSource { p.config with trimSnippet := false }
        (p.copied source) ∧
      p.copied (p.copied source) = p.copied source ∧
      p.document (p.copied source) = p.document source ∧
      if p.config.trimSnippet then
        Text.IsTrimOf source.toList (p.copied source).toList else p.copied source = source := by
  refine ⟨(p.source_document source).symm, Document.ofSource_congr rfl rfl, p.copied_copied source,
    Document.ofSource_congr rfl (p.copied_copied source), ?_⟩
  split
  · next htrim =>
    have hcopied : (p.copied source).toList = Text.trimList source.toList := by
      rw [copied, if_pos htrim, Text.trim, String.toList_ofList]
    rw [hcopied]
    exact Text.isTrimOf_trimList source.toList
  · next htrim => rw [copied, if_neg htrim]

/-- A line separator and a space of no width: the first is blank, the second is not. -/
example :
    Presenter.copied ⟨{ trimSnippet := true }, .html .standard⟩ "\n\u2028\u200b let a\u00a0\t\n" =
    "\u200b let a" := by
  cbv

end Presenter

end ScriptSpans
