import ScriptSpans.Text.Quoted

namespace ScriptSpans

inductive Notice
  | overlong (lineno : Int) (length limit : Nat)
  | noGrammar (language : Option String)
deriving DecidableEq, Repr

def loggerRoot : String := "spanlex"

def loggerName (name : String) : String :=
  if name = loggerRoot ∨ name.startsWith (loggerRoot ++ ".") then name
  else loggerRoot ++ "." ++ name

namespace Notice

def logger : Notice → String
  | overlong .. => loggerName "lexer.core"
  | noGrammar _ => loggerName "highlighting"

def level (_ : Notice) : String := "DEBUG"

def message : Notice → String
  | overlong lineno length limit =>
    s!"Line {lineno} has {length} characters (limit {limit}); emitting as plain text"
  | noGrammar language =>
    let shown := (language.map Text.quoted).getD "None"
    s!"No grammar for language {shown}; rendering plain"

end Notice

/-- A result and the notices on the way to it, in order. -/
structure Logged (α : Type) where
  value : α
  notices : List Notice

namespace Logged

instance : Monad Logged where
  pure a := ⟨a, []⟩
  bind x f :=
    let y := f x.value
    ⟨y.value, x.notices ++ y.notices⟩

def note (notice : Notice) : Logged Unit := ⟨(), [notice]⟩

@[simp] theorem value_pure {α : Type} (a : α) : (pure a : Logged α).value = a := rfl

@[simp] theorem notices_pure {α : Type} (a : α) : (pure a : Logged α).notices = [] := rfl

@[simp] theorem value_bind {α β : Type} (x : Logged α) (f : α → Logged β) :
    (x >>= f).value = (f x.value).value := rfl

@[simp] theorem notices_bind {α β : Type} (x : Logged α) (f : α → Logged β) :
    (x >>= f).notices = x.notices ++ (f x.value).notices := rfl

end Logged

end ScriptSpans
