import ScriptSpans.Partition
import ScriptSpans.Session
import ScriptSpans.Proofs.Codec
import ScriptSpans.Proofs.Faultless
import ScriptSpans.Proofs.Line.Automaton
import ScriptSpans.Proofs.Limit
import ScriptSpans.Proofs.Partition
import ScriptSpans.Proofs.Pool
import ScriptSpans.Proofs.Html.Lines
import ScriptSpans.Proofs.Codec.Format
import ScriptSpans.Proofs.Codec.Defects
import ScriptSpans.Proofs.Line.Seams
import ScriptSpans.Proofs.Line.Opaque
import ScriptSpans.Proofs.Line.Inert
import ScriptSpans.Proofs.Session
import ScriptSpans.Proofs.Session.Contexts
import ScriptSpans.Proofs.Session.Threads
import ScriptSpans.Proofs.Session.Calls
import ScriptSpans.Proofs.Markup.Nesting
import ScriptSpans.Proofs.Markup.Entities
import ScriptSpans.Proofs.Html.Blocks
import ScriptSpans.Proofs.Html.Coverage
import ScriptSpans.Proofs.Html.Structure
import ScriptSpans.Proofs.Line.Names
import ScriptSpans.Proofs.Line.Numbers
import ScriptSpans.Proofs.Presenter
import ScriptSpans.Proofs.Session.Refusals
