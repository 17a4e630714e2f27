import ScriptSpans.Proofs.Faultless

namespace ScriptSpans

open Markup

def Notice.ofLine (config : Config) (raw : String) (lineno : Int) : List Notice :=
  match config.maxLineLength with
  | none => []
  | some limit => if limit < raw.length then [.overlong lineno raw.length limit] else []

theorem Slate.line_notices (slate : Slate) (config : Config) (raw : String) (lineno : Int) :
    (slate.line config raw lineno).notices = Notice.ofLine config raw lineno := by
  rw [Notice.ofLine]
  by_cases hraw : raw = ""
  · rw [hraw, Slate.line_empty]
    cases config.maxLineLength <;> rfl
  · obtain ⟨done, hdone, -⟩ := Raw.slate_escapeList raw.toList
    cases hmax : config.maxLineLength with
    | none => rw [Slate.line_classified hraw (by simp [hmax]) hdone, Logged.notices_pure]
    | some limit =>
      dsimp only
      split
      · rename_i hlimit
        rw [Slate.line_overlong hmax hlimit]
      · rename_i hlimit
        rw [Slate.line_classified hraw (by simpa [hmax] using hlimit) hdone, Logged.notices_pure]

namespace Feed

theorem emit_notices (feed : Feed) (raw : String) :
    (feed.emit raw).notices = Notice.ofLine feed.config raw ((feed.emitted + 1 : Nat) : Int) := by
  have hline := feed.slate.line_notices feed.config raw ((feed.emitted + 1 : Nat) : Int)
  rw [emit, Logged.notices_bind, hline, Logged.notices_pure, List.append_nil]

theorem emitAll_notices (feed : Feed) (raws : List String) :
    (feed.emitAll raws).notices =
      (raws.zipIdx (feed.emitted + 1)).flatMap (fun p ↦ Notice.ofLine feed.config p.1 p.2) := by
  induction raws generalizing feed with
  | nil => rfl
  | cons raw later ih =>
    have hcons : (feed.emitAll (raw :: later)).notices =
        (feed.emit raw).notices ++ ((feed.emit raw).value.2.emitAll later).notices := by
      simp [emitAll]
    have hnext := feed.emit_advanced raw
    rw [hcons, emit_notices, ih, hnext.config, hnext.emitted, List.zipIdx_cons, List.flatMap_cons]

end Feed

def Line.limited (line : Line) (limit : Nat) (raw : String) : Line :=
  if limit < raw.length then { line with spans := [⟨.plain, escape raw⟩] } else line

theorem Line.limited_lineno (line : Line) (limit : Nat) (raw : String) :
    (line.limited limit raw).lineno = line.lineno := by
  rw [Line.limited]
  split <;> rfl

theorem Line.ofSource_of_limit (limit : Nat) (trim : Bool) (raw : String) (lineno : Int) :
    (Line.ofSource ⟨some limit, trim⟩ raw lineno).value =
      (Line.ofSource ⟨none, trim⟩ raw lineno).value.limited limit raw := by
  rw [Line.ofSource_value, Line.ofSource_value, Raw.map_span_piecesOf,
    Raw.map_span_piecesOf, Line.limited]
  by_cases hlimit : limit < raw.length <;> simp [hlimit]

theorem flatMap_ite {α β : Type} (p : α → Prop) [DecidablePred p] (f : α → β) (as : List α) :
    as.flatMap (fun a ↦ if p a then [f a] else []) = (as.filter p).map f := by
  induction as with
  | nil => rfl
  | cons a as ih => by_cases ha : p a <;> simp [ha, ih]

namespace Document

theorem ofSource_notices (config : Config) (source : String) :
    (Document.ofSource config source).notices =
      ((Feed.ofSource config source).lines.zipIdx 1).flatMap
        (fun p ↦ Notice.ofLine config p.1 p.2) := by
  have hdrain :
      (Document.ofSource config source).notices = (Feed.ofSource config source).drain.notices := by
    simp [Document.ofSource]
  rw [hdrain]
  exact (Feed.ofSource config source).emitAll_notices _

theorem zip_lines (config : Config) (source : String) :
    (Feed.ofSource config source).lines.zip (Document.ofSource config source).value.lines =
      ((Feed.ofSource config source).lines.zipIdx 1).map
        (fun p ↦ (p.1, (Line.ofSource config p.1 p.2).value)) := by
  rw [ofSource_lines, ← List.zip_map', List.zipIdx_map_fst]

section limit

variable (limit : Nat) (trim : Bool) (source : String)

theorem lines_of_limit :
    (Feed.ofSource ⟨some limit, trim⟩ source).lines = (Feed.ofSource ⟨none, trim⟩ source).lines :=
      rfl

theorem ofSource_lines_of_limit :
    (Document.ofSource ⟨some limit, trim⟩ source).value.lines =
      ((Feed.ofSource ⟨none, trim⟩ source).lines.zip
        (Document.ofSource ⟨none, trim⟩ source).value.lines).map
        (fun p ↦ p.2.limited limit p.1) := by
  rw [zip_lines, ofSource_lines, lines_of_limit, List.map_map]
  exact List.map_congr_left (fun p _ ↦ Line.ofSource_of_limit limit trim p.1 p.2)

theorem ofSource_notices_of_limit :
    (Document.ofSource ⟨some limit, trim⟩ source).notices =
      (((Feed.ofSource ⟨none, trim⟩ source).lines.zip
        (Document.ofSource ⟨none, trim⟩ source).value.lines).filter
        (fun p ↦ limit < p.1.length)).map (fun p ↦ .overlong p.2.lineno p.1.length limit) := by
  have hnotices := ofSource_notices ⟨some limit, trim⟩ source
  rw [lines_of_limit] at hnotices
  rw [zip_lines, List.filter_map, List.map_map]
  refine hnotices.trans ((flatMap_ite (fun p : String × Nat ↦ limit < p.1.length) _ _).trans ?_)
  refine List.map_congr_left (fun p _ ↦ ?_)
  rw [Function.comp_apply, Line.ofSource_lineno]

theorem ofSource_notices_of_none : (Document.ofSource ⟨none, trim⟩ source).notices = [] := by
  rw [ofSource_notices]
  exact List.flatMap_eq_nil_iff.mpr (fun _ _ ↦ rfl)

end limit

/-- Under a limit a document has the lines that it has without one, but that those beyond the limit
are plain text. Each of these is reported once, in order and by its number and its length, and
nothing else is reported. -/
theorem ofSource_limited (limit : Nat) (trim : Bool) (source : String) :
    let text := if trim then Text.trim source else source
    let raws := if text = "" then [] else (text.toList.splitOn '\n').map String.ofList
    let free := Document.ofSource ⟨none, trim⟩ source
    let bounded := Document.ofSource ⟨some limit, trim⟩ source
    let lines := raws.zip free.value.lines
    raws.length = free.value.lines.length ∧
      bounded.value.lines.map Line.lineno = free.value.lines.map Line.lineno ∧
      bounded.value.lines = lines.map (fun p ↦ p.2.limited limit p.1) ∧
      bounded.notices =
        (lines.filter (fun p ↦ limit < p.1.length)).map
          (fun p ↦ .overlong p.2.lineno p.1.length limit) ∧
      (∀ notice ∈ bounded.notices, notice.level = "DEBUG") ∧
        (∀ lineno, .overlong lineno 0 limit ∉ bounded.notices) ∧
      free.notices = [] := by
  intro text raws free bounded lines
  have hraws : (Feed.ofSource ⟨none, trim⟩ source).lines = raws := Feed.lines_eq _
  have hlength : raws.length = free.value.lines.length := by
    rw [ofSource_lines, hraws, List.length_map, List.length_zipIdx]
  have hvalue : bounded.value.lines = lines.map (fun p ↦ p.2.limited limit p.1) := by
    rw [ofSource_lines_of_limit, hraws]
  have hnotices : bounded.notices =
      (lines.filter (fun p ↦ limit < p.1.length)).map
        (fun p ↦ .overlong p.2.lineno p.1.length limit) := by
    rw [ofSource_notices_of_limit, hraws]
  refine ⟨hlength, ?_, hvalue, hnotices, fun _ _ ↦ rfl, ?_, ofSource_notices_of_none trim source⟩
  · rw [hvalue, List.map_map]
    calc lines.map (Line.lineno ∘ fun p ↦ p.2.limited limit p.1)
        = lines.map (Line.lineno ∘ Prod.snd) :=
          List.map_congr_left (fun p _ ↦ p.2.limited_lineno limit p.1)
      _ = (lines.map Prod.snd).map Line.lineno := List.map_map.symm
      _ = free.value.lines.map Line.lineno := by rw [List.map_snd_zip hlength.ge]
  · intro lineno hmem
    rw [hnotices] at hmem
    obtain ⟨p, hp, hnotice⟩ := List.mem_map.mp hmem
    obtain ⟨-, hlong⟩ := List.mem_filter.mp hp
    obtain ⟨-, hempty, -⟩ := Notice.overlong.inj hnotice
    rw [hempty] at hlong
    exact Nat.not_lt_zero limit (of_decide_eq_true hlong)

end Document

end ScriptSpans
