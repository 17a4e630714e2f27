import ScriptSpans.Config
import ScriptSpans.Document
import ScriptSpans.Notice
import ScriptSpans.Proofs.Line.Spans
import ScriptSpans.Text.Blank

namespace ScriptSpans

/-- Classifies one line on a slate, unless a claim on it goes wrong. An empty line has no spans, and
the slate stays as it is; a line beyond the limit is one plain span, which is reported, and nothing
on it is claimed. Neither looks for line breaks inside the line. -/
def Slate.line? (slate : Slate) (config : Config) (raw : String) (lineno : Int) :
    Except Fault (Logged (Line × Slate)) :=
  if raw.isEmpty then .ok (pure (⟨[], lineno⟩, slate))
  else
    let slate := slate.put (Markup.escapeList raw.toList)
    match config.maxLineLength.filter (· < raw.length) with
    | some limit => .ok do
      Logged.note (.overlong lineno raw.length limit)
      return (⟨[⟨.plain, String.ofList slate.text⟩], lineno⟩, slate)
    | none => slate.classify.map (fun slate ↦ pure (⟨slate.spans, lineno⟩, slate))

theorem Slate.exists_line? (slate : Slate) (config : Config) (raw : String) (lineno : Int) :
    ∃ result, slate.line? config raw lineno = .ok result := by
  rw [Slate.line?]
  split
  · exact ⟨_, rfl⟩
  dsimp only
  split
  · exact ⟨_, rfl⟩
  · obtain ⟨done, hdone, -⟩ := Raw.slate_escapeList raw.toList
    have hput : slate.put (Markup.escapeList raw.toList) =
        Slate.blank.put (Markup.escapeList raw.toList) := rfl
    rw [hput, hdone]
    exact ⟨_, rfl⟩

/-- The result of a line. There is always one: no claim goes wrong. -/
def Slate.line (slate : Slate) (config : Config) (raw : String) (lineno : Int) :
    Logged (Line × Slate) :=
  (slate.line? config raw lineno).toOption.get (by
    obtain ⟨result, hresult⟩ := slate.exists_line? config raw lineno
    rw [hresult]
    rfl)

theorem Slate.line?_eq (slate : Slate) (config : Config) (raw : String) (lineno : Int) :
    slate.line? config raw lineno = .ok (slate.line config raw lineno) := by
  obtain ⟨result, hresult⟩ := slate.exists_line? config raw lineno
  simp only [Slate.line, hresult]
  rfl

def Line.ofSource (config : Config) (raw : String) (lineno : Int) : Logged Line := do
  let (line, _) ← Slate.blank.line config raw lineno
  return line

/-- The slate holds what the last line left behind. -/
structure Feed where
  config : Config
  source : String
  emitted : Nat := 0
  slate : Slate := .blank

/-- Where a cursor stands: the lines still to come, or `none` before the first is drawn. -/
structure Cursor where
  pending : Option (List String) := none

namespace Feed

def ofSource (config : Config) (source : String) : Feed :=
  { config, source := if config.trimSnippet then Text.trim source else source }

def lines (feed : Feed) : List String :=
  if feed.source.isEmpty then [] else (feed.source.toList.splitOn '\n').map String.ofList

def emit (feed : Feed) (raw : String) : Logged (Line × Feed) := do
  let count := feed.emitted + 1
  let (line, slate) ← feed.slate.line feed.config raw count
  return (line, { feed with emitted := count, slate })

def emitAll (feed : Feed) : List String → Logged (List Line × Feed)
  | [] => pure ([], feed)
  | raw :: later => do
    let (line, feed) ← feed.emit raw
    let (lines, feed) ← feed.emitAll later
    return (line :: lines, feed)

def drain (feed : Feed) : Logged (List Line × Feed) :=
  feed.emitAll feed.lines

/-- The next line for a cursor, or `none` at the end. A cursor takes the feed's lines when its first
one is drawn. -/
def draw (feed : Feed) (cursor : Cursor) : Logged (Option Line × Cursor × Feed) :=
  match cursor.pending.getD feed.lines with
  | [] => pure (none, ⟨some []⟩, feed)
  | raw :: later => do
    let (line, feed) ← feed.emit raw
    return (some line, ⟨some later⟩, feed)

/-- What a caller may ask of a feed. Cursors go by names; a name may be used again for a new one. -/
inductive Step
  | lines
  | drain
  | start (name : String)
  | draw (name : String)
  | classify (raw : String) (lineno : Int)
deriving DecidableEq, Repr

inductive Answer
  | done
  | raw (lines : List String)
  | drained (lines : List Line)
  | line (line : Option Line)
deriving DecidableEq, Repr

structure Pool where
  feed : Feed
  cursors : String → Cursor := fun _ ↦ {}

namespace Pool

def put (pool : Pool) (name : String) (cursor : Cursor) : Pool :=
  { pool with cursors := fun other ↦ if other = name then cursor else pool.cursors other }

/-- A line that is classified directly has the number it is given, and the count stays as it is. -/
def step (pool : Pool) : Step → Logged (Answer × Pool)
  | .lines => pure (.raw pool.feed.lines, pool)
  | .drain => do
    let (lines, feed) ← pool.feed.drain
    return (.drained lines, { pool with feed })
  | .start name => pure (.done, pool.put name {})
  | .draw name => do
    let (line, cursor, feed) ← pool.feed.draw (pool.cursors name)
    return (.line line, { pool with feed }.put name cursor)
  | .classify raw lineno => do
    let (line, slate) ← pool.feed.slate.line pool.feed.config raw lineno
    return (.line (some line), { pool with feed := { pool.feed with slate } })

def run (pool : Pool) : List Step → Logged (List Answer × Pool)
  | [] => pure ([], pool)
  | step :: later => do
    let (answer, pool) ← pool.step step
    let (answers, pool) ← pool.run later
    return (answer :: answers, pool)

end Pool

end Feed

def Document.ofSource (config : Config) (source : String) : Logged Document := do
  let (lines, _) ← (Feed.ofSource config source).drain
  return ⟨lines⟩

end ScriptSpans
