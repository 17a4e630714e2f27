import ScriptSpans.Proofs.Feed
import Mathlib.Data.Option.Basic

namespace ScriptSpans.Feed

/-- The lines that a step emits. A line that is classified directly is not among them. -/
def Step.emitted : Step → Answer → List Line
  | .drain, .drained emitted => emitted
  | .draw _, .line (some line) => [line]
  | _, _ => []

namespace Pool

abbrev History := List (Step × Answer)

def emitted (history : History) : List Line := history.flatMap (fun p ↦ p.1.emitted p.2)

def drawn (name : String) (history : History) : List Answer :=
  (history.filter (fun p ↦ p.1 = .draw name)).map Prod.snd

/-- A stretch of a history in which one cursor goes by the name: it begins with the history or where
the cursor is started, and the name is not given to another. -/
def Life (name : String) (history life : History) : Prop :=
  ∃ before after, history = before ++ life ++ after ∧ (∀ p ∈ before.getLast?, p.1 = .start name) ∧
    ∀ p ∈ life, p.1 ≠ .start name

def history (pool : Pool) (steps : List Step) : History := steps.zip (pool.run steps).value.1

def final (pool : Pool) (steps : List Step) : Pool := (pool.run steps).value.2

variable (pool : Pool) (step : Step) (steps : List Step)

theorem history_cons :
    pool.history (step :: steps) = (step, (pool.step step).value.1) ::
      (pool.step step).value.2.history steps :=
  rfl

theorem final_cons : pool.final (step :: steps) = (pool.step step).value.2.final steps := rfl

theorem history_append (first later : List Step) :
    pool.history (first ++ later) = pool.history first ++ (pool.final first).history later := by
  induction first generalizing pool with
  | nil => rfl
  | cons step first ih =>
    rw [List.cons_append, history_cons, history_cons, final_cons, ih, List.cons_append]

theorem final_append (first later : List Step) :
    pool.final (first ++ later) = (pool.final first).final later := by
  induction first generalizing pool with
  | nil => rfl
  | cons step first ih => rw [List.cons_append, final_cons, final_cons, ih]

theorem length_run : (pool.run steps).value.1.length = steps.length := by
  induction steps generalizing pool with
  | nil => rfl
  | cons step steps ih => exact congrArg Nat.succ (ih (pool.step step).value.2)

theorem map_fst_history : (pool.history steps).map Prod.fst = steps :=
  List.map_fst_zip (Nat.le_of_eq (pool.length_run steps).symm)

theorem eq_history_of_append {before life after : History}
    (h : pool.history steps = before ++ life ++ after) :
    life = (pool.final (before.map Prod.fst)).history (life.map Prod.fst) := by
  have hsteps := pool.map_fst_history steps
  rw [h, List.map_append, List.map_append] at hsteps
  rw [← hsteps, history_append, history_append] at h
  have hlength :
      ∀ (pool : Pool) (part : History), (pool.history (part.map Prod.fst)).length =
      part.length := by
    intro pool part
    rw [← List.length_map Prod.fst, map_fst_history, List.length_map]
  obtain ⟨hfirst, -⟩ := List.append_inj h (by
    rw [List.length_append, List.length_append, hlength, hlength])
  exact ((List.append_inj hfirst (hlength pool before)).2).symm

theorem draw_nil {feed : Feed} {cursor : Cursor} (h : cursor.pending.getD feed.lines = []) :
    (feed.draw cursor).value = (none, ⟨some []⟩, feed) := by
  rw [draw, h]
  rfl

theorem draw_cons {feed : Feed} {cursor : Cursor} {raw : String} {later : List String}
    (h : cursor.pending.getD feed.lines = raw :: later) :
    (feed.draw cursor).value = (some (feed.emit raw).value.1, ⟨some later⟩,
      (feed.emit raw).value.2) := by
  rw [draw, h]
  rfl

theorem step_draw (name : String) :
    (pool.step (.draw name)).value = (.line (pool.feed.draw (pool.cursors name)).value.1,
      { pool with feed := (pool.feed.draw (pool.cursors name)).value.2.2 }.put name
        (pool.feed.draw (pool.cursors name)).value.2.1) :=
  rfl

/-- A step takes the count on by the lines it emits, and leaves the snippet and its configuration
alone. -/
theorem step_advanced :
    Advanced pool.feed (step.emitted (pool.step step).value.1).length
      (pool.step step).value.2.feed := by
  have hsame : Advanced pool.feed 0 pool.feed := ⟨rfl, rfl, rfl⟩
  cases step with
  | lines => exact hsame
  | start name => exact hsame
  | classify raw lineno => exact ⟨rfl, rfl, rfl⟩
  | drain =>
    have hlength : (pool.feed.emitAll pool.feed.lines).value.1.length = pool.feed.lines.length := by
      rw [emitAll_lines, List.length_map, List.length_zipIdx]
    have hdrain := pool.feed.emitAll_advanced pool.feed.lines
    rw [← hlength] at hdrain
    exact hdrain
  | draw name =>
    rw [step_draw]
    cases hpending : (pool.cursors name).pending.getD pool.feed.lines with
    | nil =>
      rw [draw_nil hpending]
      exact hsame
    | cons raw later =>
      rw [draw_cons hpending]
      exact pool.feed.emit_advanced raw

def Numbered (start : Nat) (lines : List Line) : Prop :=
  lines.map Line.lineno = (List.range' start lines.length).map (fun n : Nat ↦ (n : Int))

theorem Numbered.append {start : Nat} {first later : List Line} (h : Numbered start first)
    (h' : Numbered (start + first.length) later) : Numbered start (first ++ later) := by
  rw [Numbered, List.map_append, h, h', List.length_append, ← List.range'_append_1, List.map_append]

theorem step_numbered : Numbered (pool.feed.emitted + 1)
    (step.emitted (pool.step step).value.1) := by
  cases step with
  | lines => rfl
  | start name => rfl
  | classify raw lineno => rfl
  | drain =>
    have hlines :
        Step.emitted .drain (pool.step .drain).value.1 =
        (pool.feed.emitAll pool.feed.lines).value.1 := rfl
    have hlineno :
        ∀ p : String × Nat, (Line.ofSource pool.feed.config p.1 p.2).value.lineno = p.2 :=
      fun p ↦ Line.ofSource_lineno pool.feed.config p.1 p.2
    rw [Numbered, hlines, emitAll_lines, List.map_map, List.length_map, List.length_zipIdx,
      ← List.zipIdx_map_snd, List.map_map]
    exact List.map_congr_left (fun p _ ↦ hlineno p)
  | draw name =>
    rw [step_draw]
    cases hpending : (pool.cursors name).pending.getD pool.feed.lines with
    | nil =>
      rw [draw_nil hpending]
      rfl
    | cons raw later =>
      rw [draw_cons hpending, Numbered, Step.emitted, emit_line, List.map_singleton,
        Line.ofSource_lineno]
      rfl

/-- Only starting a cursor and drawing from it change where it stands. -/
theorem step_cursors {name : String} (hstart : step ≠ .start name) (hdraw : step ≠ .draw name) :
    (pool.step step).value.2.cursors name = pool.cursors name := by
  cases step with
  | lines => rfl
  | drain => rfl
  | classify raw lineno => rfl
  | start other => exact if_neg (fun heq ↦ hstart (congrArg Step.start heq.symm))
  | draw other => exact if_neg (fun heq ↦ hdraw (congrArg Step.draw heq.symm))

theorem emitted_history_cons : emitted (pool.history (step :: steps)) =
    step.emitted (pool.step step).value.1 ++ emitted ((pool.step step).value.2.history steps) := by
  rw [history_cons, emitted, List.flatMap_cons, emitted]

theorem final_advanced :
    Advanced pool.feed (emitted (pool.history steps)).length (pool.final steps).feed := by
  induction steps generalizing pool with
  | nil => exact ⟨rfl, rfl, rfl⟩
  | cons step steps ih =>
    rw [emitted_history_cons, List.length_append, final_cons]
    exact (pool.step_advanced step).trans (ih (pool.step step).value.2)

theorem history_numbered : Numbered (pool.feed.emitted + 1) (emitted (pool.history steps)) := by
  induction steps generalizing pool with
  | nil => rfl
  | cons step steps ih =>
    rw [emitted_history_cons]
    refine (pool.step_numbered step).append ?_
    have hnext := ih (pool.step step).value.2
    rwa [(pool.step_advanced step).emitted, Nat.add_right_comm] at hnext

theorem exists_of_mem_history {step : Step} {answer : Answer}
    (h : (step, answer) ∈ pool.history steps) :
    ∃ (later : Pool) (count : Nat), Advanced pool.feed count later.feed ∧
      answer = (later.step step).value.1 := by
  induction steps generalizing pool with
  | nil => cases h
  | cons first steps ih =>
    rw [history_cons] at h
    rcases List.mem_cons.mp h with h | h
    · obtain ⟨rfl, rfl⟩ := Prod.mk.inj h
      exact ⟨pool, 0, ⟨rfl, rfl, rfl⟩, rfl⟩
    · obtain ⟨later, count, hlater, hanswer⟩ := ih (pool.step first).value.2 h
      exact ⟨later, _, (pool.step_advanced first).trans hlater, hanswer⟩

section drawn

variable {pool} {feed : Feed} {count passed : Nat} {name : String}

theorem step_draw_passed (hfeed : Advanced feed count pool.feed)
    (hpassed : (pool.cursors name).pending.getD feed.lines = feed.lines.drop passed) :
    (∃ line, (pool.step (.draw name)).value.1 = .line line ∧ line.map Line.spans =
        feed.lines[passed]?.map (fun raw ↦ (Line.ofSource feed.config raw 1).value.spans)) ∧
      ((pool.step (.draw name)).value.2.cursors name).pending.getD feed.lines =
        feed.lines.drop (passed + 1) := by
  have hlines := hfeed.lines
  have hput : ∀ (pool : Pool) (cursor : Cursor), (pool.put name cursor).cursors name = cursor :=
    fun pool cursor ↦ if_pos rfl
  rw [step_draw, hput]
  rw [← hlines] at hpassed ⊢
  rw [← List.drop_drop, ← List.head?_drop]
  cases hpending : pool.feed.lines.drop passed with
  | nil =>
    rw [draw_nil (hpassed.trans hpending)]
    exact ⟨⟨none, rfl, rfl⟩, rfl⟩
  | cons raw later =>
    rw [draw_cons (hpassed.trans hpending)]
    refine ⟨⟨_, rfl, ?_⟩, rfl⟩
    rw [emit_line, Option.map_some, hfeed.config, Line.ofSource_spans _ _ _ 1]
    rfl

theorem drawn_history (hfeed : Advanced feed count pool.feed)
    (hpassed : (pool.cursors name).pending.getD feed.lines = feed.lines.drop passed)
    {life : List Step} (hlife : ∀ step ∈ life, step ≠ .start name) (k : Nat) {answer : Answer}
    (h : (drawn name (pool.history life))[k]? = some answer) :
    ∃ line, answer = .line line ∧ line.map Line.spans =
      feed.lines[passed + k]?.map (fun raw ↦ (Line.ofSource feed.config raw 1).value.spans) := by
  induction life generalizing pool count passed k with
  | nil => cases h
  | cons step life ih =>
    obtain ⟨hstart, hlater⟩ := List.forall_mem_cons.mp hlife
    have hnext := hfeed.trans (pool.step_advanced step)
    rw [history_cons, drawn, List.filter_cons] at h
    by_cases hdraw : step = .draw name
    · subst hdraw
      obtain ⟨hanswer, hcursor⟩ := step_draw_passed hfeed hpassed
      rw [if_pos (decide_eq_true rfl), List.map_cons] at h
      cases k with
      | zero =>
        cases h
        exact hanswer
      | succ k =>
        rw [List.getElem?_cons_succ] at h
        rw [Nat.add_comm k 1, ← Nat.add_assoc]
        exact ih hnext hcursor hlater k h
    · rw [if_neg (by simpa using hdraw)] at h
      rw [← pool.step_cursors step hstart hdraw] at hpassed
      exact ih hnext hpassed hlater k h

theorem pending_final (hcursors : (pool.cursors name).pending = none) {before : List Step}
    (hbefore : ∀ step ∈ before.getLast?, step = .start name) :
    ((pool.final before).cursors name).pending = none := by
  rcases List.eq_nil_or_concat before with rfl | ⟨earlier, last, rfl⟩
  · exact hcursors
  · obtain rfl := hbefore last (by simp)
    rw [List.concat_eq_append, final_append]
    exact congrArg Cursor.pending (if_pos rfl)

theorem drawn_life (hcursors : (pool.cursors name).pending = none) {steps : List Step}
    {life : History} (hlife : Life name (pool.history steps) life) (k : Nat) {answer : Answer}
    (h : (drawn name life)[k]? = some answer) :
    ∃ line, answer = .line line ∧ line.map Line.spans =
      pool.feed.lines[k]?.map (fun raw ↦ (Line.ofSource pool.feed.config raw 1).value.spans) := by
  obtain ⟨before, after, hhistory, hbefore, hsteps⟩ := hlife
  have hown := pool.eq_history_of_append steps hhistory
  have hpending : ((pool.final (before.map Prod.fst)).cursors name).pending = none := by
    refine pending_final hcursors ?_
    rw [List.getLast?_map]
    intro step hstep
    obtain ⟨p, hp, rfl⟩ := Option.mem_map.mp hstep
    exact hbefore p hp
  have hpassed : ((pool.final (before.map Prod.fst)).cursors name).pending.getD pool.feed.lines =
      pool.feed.lines.drop 0 := by
    rw [hpending]
    rfl
  rw [hown] at h
  have hdrawn :=
    drawn_history (pool.final_advanced (before.map Prod.fst)) hpassed
    (List.forall_mem_map.mpr hsteps) k h
  rwa [Nat.zero_add] at hdrawn

end drawn

/-- However steps follow one another, emitted lines are numbered in order of time, every cursor
gives the lines of the snippet from first to last and then none, and each line has the spans it has
on a slate of its own. -/
theorem run_interleaved (config : Config) (source : String) (steps : List Step) :
    let feed := Feed.ofSource config source
    let fresh := fun raw lineno ↦ (Line.ofSource config raw lineno).value
    let run := (Pool.run { feed } steps).value
    let history := steps.zip run.1
    run.1.length = steps.length ∧
      (emitted history).map Line.lineno =
        (List.range (emitted history).length).map (fun n : Nat ↦ (n : Int) + 1) ∧
      run.2.feed.emitted = (emitted history).length ∧
      (∀ name life, Life name history life → ∀ (k : Nat) (answer : Answer),
        (drawn name life)[k]? = some answer → ∃ line, answer = .line line ∧
          line.map Line.spans = feed.lines[k]?.map (fun raw ↦ (fresh raw 1).spans)) ∧
      (∀ answer, (.drain, answer) ∈ history → ∃ lines, answer = .drained lines ∧
        lines.map Line.spans = feed.lines.map (fun raw ↦ (fresh raw 1).spans)) ∧
      (∀ raw lineno answer, (.classify raw lineno, answer) ∈ history →
        answer = .line (some (fresh raw lineno))) ∧
      ∀ answer, (.lines, answer) ∈ history → answer = .raw feed.lines := by
  intro feed fresh run history
  let pool : Pool := { feed }
  refine ⟨pool.length_run steps, ?_, ?_, ?_, ?_, ?_, ?_⟩
  · have hnumbered : Numbered 1 (emitted history) := pool.history_numbered steps
    rw [hnumbered, List.range'_eq_map_range, List.map_map]
    exact List.map_congr_left (fun n _ ↦ by simp [Int.add_comm])
  · have hcount := (pool.final_advanced steps).emitted
    exact hcount.trans (Nat.zero_add _)
  · intro name life hlife k answer hanswer
    have hcursors : (pool.cursors name).pending = none := rfl
    exact drawn_life hcursors hlife k hanswer
  · intro answer hmem
    obtain ⟨later, count, hlater, rfl⟩ := pool.exists_of_mem_history steps hmem
    have hdrain := later.feed.drain_spans
    rw [hlater.config, hlater.lines] at hdrain
    exact ⟨_, rfl, hdrain⟩
  · intro raw lineno answer hmem
    obtain ⟨later, count, hlater, rfl⟩ := pool.exists_of_mem_history steps hmem
    have hline :
        (later.feed.slate.line later.feed.config raw lineno).value.1 = fresh raw lineno := by
      rw [Slate.line_eq_ofSource, hlater.config]
      rfl
    exact congrArg (fun line ↦ Answer.line (some line)) hline
  · intro answer hmem
    obtain ⟨later, count, hlater, rfl⟩ := pool.exists_of_mem_history steps hmem
    exact congrArg Answer.raw hlater.lines

end Pool

end ScriptSpans.Feed
