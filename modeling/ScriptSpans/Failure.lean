import ScriptSpans.Codec
import ScriptSpans.Config
import ScriptSpans.Html

namespace ScriptSpans

inductive Failure
  | config (e : ConfigFault)
  | render (e : Html.Fault)
  | codec (e : CodecError)
  | unwritable
  | noSuchPart
  | noOpenContext
  | noLanguageCheck

def Failure.message : Failure → String
  | .config e => e.message
  | .render e => e.message
  | .codec e => e.message
  | .unwritable => Text.unwritable
  | .noSuchPart => "tuple index out of range"
  | .noOpenContext => "pop from empty list"
  | .noLanguageCheck => "the highlighter answers no questions about languages"

inductive ErrorKind
  | config | render | serialization | type | value | index | attribute
deriving DecidableEq, Repr

def ErrorKind.name : ErrorKind → String
  | .config => "ConfigError"
  | .render => "RenderError"
  | .serialization => "SerializationError"
  | .type => "TypeError"
  | .value => "ValueError"
  | .index => "IndexError"
  | .attribute => "AttributeError"

def ConfigFault.kind : ConfigFault → ErrorKind
  | .negativeLimit => .config
  | .incomparableLimit _ => .type

/-- Compound values and integers beyond the limit of conversion are refused by other means. -/
def CodecError.kind : CodecError → ErrorKind
  | .compoundType _ => .type
  | .unwritableType => .value
  | .hugeInteger _ => .value
  | _ => .serialization

def Html.Fault.kind : Html.Fault → ErrorKind
  | .uncovered _ => .render
  | .unwritable => .value

def Failure.kind : Failure → ErrorKind
  | .config e => e.kind
  | .render e => e.kind
  | .codec e => e.kind
  | .unwritable => .value
  | .noSuchPart => .index
  | .noOpenContext => .index
  | .noLanguageCheck => .attribute

end ScriptSpans
