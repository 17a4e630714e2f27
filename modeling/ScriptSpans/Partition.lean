import ScriptSpans.Document
import ScriptSpans.Text.Numeral
import ScriptSpans.Text.Quoted

namespace ScriptSpans

inductive Defect
  | emptySpan (category : Category)
  | mismatch (rebuilt expected : String) (column : Nat)
deriving DecidableEq, Repr

structure DefectReport where
  message : String
  lineno : Option Int := none
  column : Option Int := none
deriving DecidableEq, Repr

/-- The message after its place, if the place can be written. A column without a line number is not
shown. -/
def DefectReport.located (r : DefectReport) : Option String :=
  match r.lineno, r.column with
  | none, _ => some r.message
  | some line, none => (Text.numeral? line).map (fun line ↦ s!"{line} {r.message}")
  | some line, some column => do
    let line ← Text.numeral? line
    let column ← Text.numeral? column
    return s!"{line}:{column} {r.message}"

/-- How a check fails: with a report, or in the writing of it. -/
inductive CheckFault
  | defect (report : DefectReport)
  | unwritable
deriving DecidableEq, Repr

def DefectReport.fault (r : DefectReport) : CheckFault :=
  match r.located with
  | none => .unwritable
  | some _ => .defect r

namespace Defect

def message : Defect → String
  | emptySpan category => s!"empty {category.name} span"
  | mismatch rebuilt expected _ =>
    s!"spans rebuild {Text.quoted rebuilt}, expected {Text.quoted expected}"

def column? : Defect → Option Nat
  | emptySpan _ => none
  | mismatch _ _ column => some column

def report (d : Defect) (lineno : Int) : DefectReport :=
  ⟨d.message, some lineno, d.column?.map Int.ofNat⟩

end Defect

def commonLength : List Char → List Char → Nat
  | a :: as, b :: bs => if a = b then commonLength as bs + 1 else 0
  | _, _ => 0

/-- The first empty span is reported before any difference, a difference at its first column. -/
def Line.defect? (line : Line) (source : String) : Option Defect :=
  match line.spans.find? (fun span ↦ span.text.isEmpty) with
  | some span => some (.emptySpan span.category)
  | none =>
    if line.source = source then none
    else some (.mismatch line.source source (commonLength source.toList line.source.toList + 1))

def Line.check (line : Line) (source : String) : Except CheckFault Unit :=
  match line.defect? source with
  | none => .ok ()
  | some defect => .error (defect.report line.lineno).fault

end ScriptSpans
