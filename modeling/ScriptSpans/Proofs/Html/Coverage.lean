import ScriptSpans.Html
import ScriptSpans.Proofs.Numeral
import ScriptSpans.Proofs.Traversal

namespace ScriptSpans

def Line.Covered (line : Line) (classes : ClassMap) : Prop :=
  ∀ span ∈ line.spans, classes span.category ≠ none

def Line.FirstUncovered (line : Line) (classes : ClassMap) (span : Span) : Prop :=
  classes span.category = none ∧
    ∃ before after, line.spans = before ++ span :: after ∧
      ∀ earlier ∈ before, classes earlier.category ≠ none

def Document.FirstUncovered (doc : Document) (classes : ClassMap) (line : Line)
    (span : Span) : Prop :=
  line.FirstUncovered classes span ∧
    ∃ before after, doc.lines = before ++ line :: after ∧
      ∀ earlier ∈ before, earlier.Covered classes

theorem Document.FirstUncovered.mem_lines {doc : Document} {classes : ClassMap} {line : Line}
    {span : Span} (h : doc.FirstUncovered classes line span) : line ∈ doc.lines := by
  obtain ⟨-, before, after, hlines, -⟩ := h
  rw [hlines]
  exact List.mem_append_right before List.mem_cons_self

namespace Html

variable {classes : ClassMap} {e : Fault}

def ofSpan (classes : ClassMap) (lineno : Int) (span : Span) : Except Fault String :=
  match classes span.category with
  | none => .error (.ofSpan span.category lineno)
  | some styling => .ok (styled span.text styling)

theorem exists_ofSpan_eq_ok_iff {lineno : Int} {span : Span} :
    (∃ markup, ofSpan classes lineno span = .ok markup) ↔ classes span.category ≠ none := by
  rw [ofSpan]
  cases classes span.category <;> simp

theorem ofSpan_eq_error_iff {lineno : Int} {span : Span} :
    ofSpan classes lineno span = .error e ↔
      classes span.category = none ∧ e = .ofSpan span.category lineno := by
  rw [ofSpan]
  cases classes span.category <;> simp [eq_comm]

theorem ofSpans_eq_mapM (classes : ClassMap) (lineno : Int) (spans : List Span) :
    ofSpans classes lineno spans = (spans.mapM (ofSpan classes lineno)).map String.join := by
  induction spans with
  | nil => rfl
  | cons span later ih =>
    rw [ofSpans, ih, List.mapM_cons, ofSpan]
    cases classes span.category with
    | none => rfl
    | some styling =>
      cases later.mapM (ofSpan classes lineno) <;>
        simp [bind, Except.bind, pure, Except.pure, Except.map, String.join_cons]

theorem ofLines_eq_mapM (classes : ClassMap) (finish : Line → String → Except Fault String)
    (lines : List Line) :
    ofLines classes finish lines = lines.mapM (fun line ↦ ofLine classes line >>= finish line) := by
  induction lines with
  | nil => rfl
  | cons line later ih =>
    have hbind : (ofLine classes line).bind (finish line) = ofLine classes line >>= finish line :=
      rfl
    rw [ofLines, ih, List.mapM_cons, hbind]
    cases ofLine classes line >>= finish line with
    | error e => rfl
    | ok markup => cases later.mapM (fun line ↦ ofLine classes line >>= finish line) <;> rfl

theorem exists_ofLine_eq_ok_iff {line : Line} :
    (∃ markup, ofLine classes line = .ok markup) ↔ line.Covered classes := by
  rw [ofLine, ofSpans_eq_mapM, exists_map_eq_ok_iff, exists_mapM_eq_ok_iff, Line.Covered]
  simp only [exists_ofSpan_eq_ok_iff]

theorem ofLine_eq_error_iff {line : Line} :
    ofLine classes line = .error e ↔
      ∃ span, line.FirstUncovered classes span ∧ e = .ofSpan span.category line.lineno := by
  rw [ofLine, ofSpans_eq_mapM, map_eq_error_iff, mapM_eq_error_iff]
  simp only [exists_ofSpan_eq_ok_iff, ofSpan_eq_error_iff, Line.FirstUncovered]
  constructor
  · rintro ⟨before, span, after, hspans, hbefore, hspan, he⟩
    exact ⟨span, ⟨hspan, before, after, hspans, hbefore⟩, he⟩
  · rintro ⟨span, ⟨hspan, before, after, hspans, hbefore⟩, he⟩
    exact ⟨before, span, after, hspans, hbefore, hspan, he⟩

theorem ofLines_congr {finish finish' : Line → String → Except Fault String} {lines : List Line}
    (h : ∀ line ∈ lines, finish line = finish' line) :
    ofLines classes finish lines = ofLines classes finish' lines := by
  induction lines with
  | nil => rfl
  | cons line later ih =>
    obtain ⟨hline, hlater⟩ := List.forall_mem_cons.mp h
    rw [ofLines, ofLines, hline, ih hlater]

section finished

variable {finish : Line → String → Except Fault String}
  (hfinish : ∀ line body, ∃ markup, finish line body = .ok markup) {doc : Document}
include hfinish

theorem exists_ofLines_eq_ok_iff :
    (∃ markups, ofLines classes finish doc.lines = .ok markups) ↔
      ∀ line ∈ doc.lines, line.Covered classes := by
  rw [ofLines_eq_mapM, exists_mapM_eq_ok_iff]
  simp only [exists_bind_eq_ok_iff (hfinish _), exists_ofLine_eq_ok_iff]

/-- Whatever is added to the lines, the first uncovered span of the document decides. -/
theorem ofLines_eq_error_iff :
    ofLines classes finish doc.lines = .error e ↔
      ∃ line span, doc.FirstUncovered classes line span ∧
        e = .ofSpan span.category line.lineno := by
  rw [ofLines_eq_mapM, mapM_eq_error_iff]
  simp only [exists_bind_eq_ok_iff (hfinish _), exists_ofLine_eq_ok_iff,
    bind_eq_error_iff (hfinish _), ofLine_eq_error_iff, Document.FirstUncovered]
  constructor
  · rintro ⟨before, line, after, hlines, hbefore, span, hspan, he⟩
    exact ⟨line, span, ⟨hspan, before, after, hlines, hbefore⟩, he⟩
  · rintro ⟨line, span, ⟨hspan, before, after, hlines, hbefore⟩, he⟩
    exact ⟨before, line, after, hlines, hbefore, span, hspan, he⟩

end finished

section documents

variable {doc : Document} {options : BlockOptions}

theorem exists_ofDocument_eq_ok_iff :
    (∃ markup, ofDocument classes doc = .ok markup) ↔
      ∀ line ∈ doc.lines, line.Covered classes := by
  rw [ofDocument, exists_map_eq_ok_iff, exists_ofLines_eq_ok_iff (fun _ body ↦ ⟨body, rfl⟩)]

theorem ofDocument_eq_error_iff :
    ofDocument classes doc = .error e ↔
      ∃ line span, doc.FirstUncovered classes line span ∧
        e = .ofSpan span.category line.lineno := by
  rw [ofDocument, map_eq_error_iff, ofLines_eq_error_iff (fun _ body ↦ ⟨body, rfl⟩)]

theorem finish_eq_ok (options : BlockOptions) (line : Line) (body : String) :
    options.finish (fun n ↦ some (toString n)) line body =
      .ok (options.decorated line.lineno (toString line.lineno) body) := by
  cases hnumbered : options.numbered <;>
    simp [BlockOptions.finish, BlockOptions.decorated, hnumbered]

theorem exists_blockOf_eq_ok_iff :
    (∃ markup, blockOf classes options doc = .ok markup) ↔
      ∀ line ∈ doc.lines, line.Covered classes := by
  rw [blockOf, blockBy, exists_map_eq_ok_iff,
    exists_ofLines_eq_ok_iff (fun line body ↦ ⟨_, finish_eq_ok options line body⟩)]

theorem blockOf_eq_error_iff :
    blockOf classes options doc = .error e ↔ ofDocument classes doc = .error e := by
  rw [blockOf, blockBy, map_eq_error_iff, ofDocument_eq_error_iff,
    ofLines_eq_error_iff (fun line body ↦ ⟨_, finish_eq_ok options line body⟩)]

variable (h : ∀ line ∈ doc.lines, line.lineno.natAbs < 10 ^ Text.digitLimit)
include h

theorem codeBlock_eq_blockOf : codeBlock classes options doc = blockOf classes options doc := by
  have hfinish : ∀ line ∈ doc.lines,
      options.finish Text.numeral? line = options.finish (fun n ↦ some (toString n)) line := by
    intro line hline
    funext body
    rw [BlockOptions.finish, BlockOptions.finish, Text.numeral?_of_lt (h line hline)]
  rw [codeBlock, blockOf, blockBy, blockBy, ofLines_congr hfinish]

omit h in
theorem Fault.ofSpan_of_lt (c : Category) {lineno : Int}
    (h : lineno.natAbs < 10 ^ Text.digitLimit) :
    Fault.ofSpan c lineno = .uncovered
      s!"No CSS class for category <Category.{c.name}: {c.rank}> on line {lineno}" := by
  rw [Fault.ofSpan, Text.numeral?_of_lt h]
  rfl

omit h in
theorem Fault.ofSpan_of_none (c : Category) {lineno : Int} (h : Text.numeral? lineno = none) :
    Fault.ofSpan c lineno = .unwritable := by
  rw [Fault.ofSpan, h]

omit h in
theorem BlockOptions.finish_of_none {numeral? : Int → Option String} {line : Line} {body : String}
    (hnumbered : options.numbered) (h : numeral? line.lineno = none) :
    options.finish numeral? line body = .error .unwritable := by
  rw [BlockOptions.finish, if_pos hnumbered, h]

end documents

/-- A document is written when all of its spans are covered. Otherwise, if its line numbers have
numerals, the error names the first span that is not, and its code block fails with the same error
or is written as well, whatever else it shows. -/
theorem written_unless_uncovered (classes : ClassMap) (doc : Document) (options : BlockOptions) :
    ((∃ markup, ofDocument classes doc = .ok markup) ↔
        ∀ line ∈ doc.lines, line.Covered classes) ∧
      ((∀ line ∈ doc.lines, line.lineno.natAbs < 10 ^ Text.digitLimit) →
        ((∃ message, ofDocument classes doc = .error (.uncovered message)) ↔
          ∃ line ∈ doc.lines, ∃ span ∈ line.spans, classes span.category = none) ∧
        (∀ e, ofDocument classes doc = .error e ↔
          ∃ line span, doc.FirstUncovered classes line span ∧
            let c := span.category
            e = .uncovered
              s!"No CSS class for category <Category.{c.name}: {c.rank}> on line {line.lineno}") ∧
        (∀ e, codeBlock classes options doc = .error e ↔ ofDocument classes doc = .error e) ∧
        ((∃ markup, codeBlock classes options doc = .ok markup) ↔
          ∀ line ∈ doc.lines, line.Covered classes)) := by
  refine ⟨exists_ofDocument_eq_ok_iff, fun h ↦ ?_⟩
  rw [codeBlock_eq_blockOf h]
  have herror : ∀ e, ofDocument classes doc = .error e ↔
      ∃ line span, doc.FirstUncovered classes line span ∧
        let c := span.category
        e = .uncovered
          s!"No CSS class for category <Category.{c.name}: {c.rank}> on line {line.lineno}" := by
    intro e
    rw [ofDocument_eq_error_iff]
    refine exists_congr fun line ↦ exists_congr fun span ↦ and_congr_right fun hfirst ↦ ?_
    rw [Fault.ofSpan_of_lt _ (h line hfirst.mem_lines)]
  refine ⟨?_, herror, fun e ↦ blockOf_eq_error_iff, exists_blockOf_eq_ok_iff⟩
  have hfails : (∃ message, ofDocument classes doc = .error (.uncovered message)) ↔
      ∃ e, ofDocument classes doc = .error e := by
    refine ⟨fun ⟨message, hmessage⟩ ↦ ⟨_, hmessage⟩, fun ⟨e, he⟩ ↦ ?_⟩
    obtain ⟨line, span, -, rfl⟩ := (herror e).mp he
    exact ⟨_, he⟩
  rw [hfails, exists_error_iff, exists_ofDocument_eq_ok_iff]
  simp only [Line.Covered, not_forall, exists_prop, not_not]

theorem written_unless_uncovered_second :
    let classes := ClassMap.ofList [(.plain, .bare)]
    let doc : Document := ⟨[⟨[⟨.plain, "a"⟩], 7⟩, ⟨[⟨.plain, "b"⟩, ⟨.keyword, "if"⟩], -3⟩]⟩
    (∀ line ∈ doc.lines, line.lineno.natAbs < 10 ^ Text.digitLimit) ∧
      codeBlock classes ⟨none, some "js", [7], true⟩ doc =
        .error (.uncovered "No CSS class for category <Category.KEYWORD: 4> on line -3") := by
  intro classes doc
  have hshort : ∀ line ∈ doc.lines, line.lineno.natAbs < 10 ^ Text.digitLimit := by
    have hsmall : ∀ line ∈ doc.lines, line.lineno.natAbs < 10 := by decide
    exact fun line hline ↦ Nat.lt_of_lt_of_le (hsmall line hline) Text.ten_le_pow_digitLimit
  obtain ⟨-, herror, hblock, -⟩ :=
    (written_unless_uncovered classes doc ⟨none, some "js", [7], true⟩).2 hshort
  have hcovered : classes .plain ≠ none := by decide
  have hfirst :
      doc.FirstUncovered classes ⟨[⟨.plain, "b"⟩, ⟨.keyword, "if"⟩], -3⟩ ⟨.keyword, "if"⟩ := by
    refine ⟨⟨rfl, [⟨.plain, "b"⟩], [], rfl, ?_⟩, [⟨[⟨.plain, "a"⟩], 7⟩], [], rfl, ?_⟩
    · simpa using hcovered
    · simpa [Line.Covered] using hcovered
  exact ⟨hshort, (hblock _).mpr ((herror _).mpr ⟨_, _, hfirst, rfl⟩)⟩

/-- A number of one digit too many cannot be named by the error on a span, nor stand before its
line. -/
theorem not_written_unless_uncovered :
    let line : Line := ⟨[⟨.plain, "x"⟩], 10 ^ Text.digitLimit⟩
    let doc : Document := ⟨[line]⟩
    let empty := ClassMap.ofList []
    let bare := ClassMap.ofList [(.plain, .bare)]
    (doc.FirstUncovered empty line ⟨.plain, "x"⟩ ∧ ofDocument empty doc = .error .unwritable) ∧
      line.Covered bare ∧ ofDocument bare doc = .ok "x" ∧
        codeBlock bare { numbered := true } doc = .error .unwritable := by
  intro line doc empty bare
  have hempty : ofDocument empty doc = .error (.ofSpan .plain line.lineno) := rfl
  have hbare : ofLine bare line = .ok "x" := rfl
  have hspan : Fault.ofSpan .plain line.lineno = .unwritable :=
    Fault.ofSpan_of_none _ Text.numeral?_pow_digitLimit
  have hline : (ofLine bare line).bind
      (BlockOptions.finish { numbered := true } Text.numeral? line) = .error .unwritable := by
    -- For any `f`, so that no digits are counted when the step is checked.
    have hbind : ∀ f : String → Except Fault String, (Except.ok "x").bind f = f "x" :=
      fun _ ↦ rfl
    rw [hbare, hbind]
    exact BlockOptions.finish_of_none rfl Text.numeral?_pow_digitLimit
  have hblock : codeBlock bare { numbered := true } doc = .error .unwritable := by
    rw [codeBlock, blockBy, ofLines, hline]
    rfl
  rw [hempty, hspan]
  refine ⟨⟨⟨⟨rfl, [], [], rfl, nofun⟩, [], [], rfl, nofun⟩, rfl⟩, ?_, rfl, hblock⟩
  simp [Line.Covered, line, bare, ClassMap.ofList]

end Html

end ScriptSpans
