import ScriptSpans.Proofs.Line.Pieces
import Mathlib.Data.List.Forall2

namespace ScriptSpans

theorem not_mem_of_mem_splitOn {separator : Char} {text part : List Char}
    (h : part ∈ text.splitOn separator) : separator ∉ part := by
  induction text generalizing part with
  | nil =>
    rw [List.splitOn_nil, List.mem_singleton] at h
    rw [h]
    exact List.not_mem_nil
  | cons c rest ih =>
    obtain ⟨first, more, hrest⟩ := List.exists_cons_of_ne_nil (List.splitOn_ne_nil separator rest)
    rw [hrest] at ih
    rw [List.splitOn_cons_eq_if_modifyHead, hrest] at h
    split at h
    · rcases List.mem_cons.mp h with rfl | h
      · exact List.not_mem_nil
      · exact ih h
    · rename_i hc
      rw [List.modifyHead_cons] at h
      rcases List.mem_cons.mp h with rfl | h
      · have hfirst := ih List.mem_cons_self
        rw [List.mem_cons, not_or]
        exact ⟨fun heq ↦ hc (by simp [heq]), hfirst⟩
      · exact ih (List.mem_cons_of_mem _ h)

theorem forall₂_zipIdx {α β : Type} {R : β → α → Prop} {f : α → Nat → β}
    (h : ∀ a n, R (f a n) a) (as : List α) (start : Nat) :
    List.Forall₂ R ((as.zipIdx start).map (fun p ↦ f p.1 p.2)) as := by
  induction as generalizing start with
  | nil => exact .nil
  | cons a as ih => exact .cons (h a start) (ih (start + 1))

namespace Feed

theorem lines_of_empty {feed : Feed} (h : feed.source = "") : feed.lines = [] := by
  rw [lines, h]
  rfl

theorem lines_of_ne {feed : Feed} (h : feed.source ≠ "") :
    feed.lines = (feed.source.toList.splitOn '\n').map String.ofList := by
  rw [lines, if_neg (by simpa [String.isEmpty_iff] using h)]

theorem lines_eq (feed : Feed) :
    feed.lines = if feed.source = "" then [] else (feed.source.toList.splitOn '\n').map
      String.ofList := by
  split
  · next hempty => exact lines_of_empty hempty
  · next hne => exact lines_of_ne hne

theorem lines_ne_nil {feed : Feed} (h : feed.source ≠ "") : feed.lines ≠ [] := by
  rw [lines_of_ne h, ne_eq, List.map_eq_nil_iff]
  exact List.splitOn_ne_nil _ _

theorem not_mem_of_mem_lines {feed : Feed} {raw : String} (h : raw ∈ feed.lines) :
    '\n' ∉ raw.toList := by
  by_cases hsource : feed.source = ""
  · rw [lines_of_empty hsource] at h
    cases h
  · rw [lines_of_ne hsource] at h
    obtain ⟨part, hpart, rfl⟩ := List.mem_map.mp h
    rw [String.toList_ofList]
    exact not_mem_of_mem_splitOn hpart

theorem intercalate_lines (feed : Feed) : "\n".intercalate feed.lines = feed.source := by
  by_cases hsource : feed.source = ""
  · rw [lines_of_empty hsource, hsource]
    rfl
  · have hparts : ((feed.source.toList.splitOn '\n').map String.ofList).map String.toList =
        feed.source.toList.splitOn '\n' := by
      have hid : String.toList ∘ String.ofList = id := funext (fun _ ↦ String.toList_ofList)
      rw [List.map_map, hid, List.map_id]
    rw [lines_of_ne hsource, ← String.toList_inj, String.toList_intercalate, hparts]
    exact List.intercalate_splitOn '\n'

/-- The feed `count` lines later. What is on its slate does not matter, since no line depends on
it. -/
structure Advanced (feed : Feed) (count : Nat) (later : Feed) : Prop where
  config : later.config = feed.config
  source : later.source = feed.source
  emitted : later.emitted = feed.emitted + count

variable {feed later : Feed}

theorem Advanced.trans {last : Feed} {m n : Nat} (h : Advanced feed m later)
    (h' : Advanced later n last) :
    Advanced feed (m + n) last where
  config := h'.config.trans h.config
  source := h'.source.trans h.source
  emitted := by rw [h'.emitted, h.emitted, Nat.add_assoc]

theorem Advanced.lines {count : Nat} (h : Advanced feed count later) :
    later.lines = feed.lines := by
  rw [Feed.lines, Feed.lines, h.source]

theorem emit_advanced (feed : Feed) (raw : String) : Advanced feed 1 (feed.emit raw).value.2 :=
  ⟨rfl, rfl, rfl⟩

theorem emit_line (feed : Feed) (raw : String) :
    (feed.emit raw).value.1 =
      (Line.ofSource feed.config raw ((feed.emitted + 1 : Nat) : Int)).value :=
  Slate.line_eq_ofSource feed.slate feed.config raw _

theorem emitAll_advanced (feed : Feed) (raws : List String) :
    Advanced feed raws.length (feed.emitAll raws).value.2 := by
  induction raws generalizing feed with
  | nil => exact ⟨rfl, rfl, rfl⟩
  | cons raw later ih =>
    rw [List.length_cons, Nat.add_comm]
    exact (feed.emit_advanced raw).trans (ih (feed.emit raw).value.2)

theorem emitAll_lines (feed : Feed) (raws : List String) :
    (feed.emitAll raws).value.1 =
      (raws.zipIdx (feed.emitted + 1)).map (fun p ↦ (Line.ofSource feed.config p.1 p.2).value) := by
  induction raws generalizing feed with
  | nil => rfl
  | cons raw later ih =>
    have hcons : (feed.emitAll (raw :: later)).value.1 =
        (feed.emit raw).value.1 :: ((feed.emit raw).value.2.emitAll later).value.1 := rfl
    have hnext := feed.emit_advanced raw
    rw [hcons, ih, emit_line, hnext.config, hnext.emitted, List.zipIdx_cons, List.map_cons]

theorem drain_spans (feed : Feed) : feed.drain.value.1.map Line.spans =
    feed.lines.map (fun raw ↦ (Line.ofSource feed.config raw 1).value.spans) := by
  have hspans : ∀ p : String × Nat, (Line.ofSource feed.config p.1 p.2).value.spans =
      (Line.ofSource feed.config p.1 1).value.spans :=
        fun p ↦ Line.ofSource_spans feed.config p.1 p.2 1
  rw [drain, emitAll_lines, List.map_map]
  calc (feed.lines.zipIdx (feed.emitted + 1)).map
        (Line.spans ∘ fun p ↦ (Line.ofSource feed.config p.1 p.2).value)
      = (feed.lines.zipIdx (feed.emitted + 1)).map
        (fun p ↦ (Line.ofSource feed.config p.1 1).value.spans) :=
        List.map_congr_left (fun p _ ↦ hspans p)
    _ = ((feed.lines.zipIdx (feed.emitted + 1)).map Prod.fst).map
          (fun raw ↦ (Line.ofSource feed.config raw 1).value.spans) := by rw [List.map_map]; rfl
    _ = feed.lines.map (fun raw ↦ (Line.ofSource feed.config raw 1).value.spans) := by
      rw [List.zipIdx_map_fst]

end Feed

end ScriptSpans
