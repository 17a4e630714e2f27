namespace ScriptSpans.Lexicon

def isBacktick (c : Char) : Bool := c = '\x60'

def isQuote (c : Char) : Bool := c = '\x22' || c = '\x27'

def isBackslash (c : Char) : Bool := c = '\x5c'

def isDelimiter (c : Char) : Bool := isQuote c || isBacktick c

def isIdentifierChar (c : Char) : Bool := c.isAlphanum || c = '_' || c = '$'

/-- What a name begins with that may be called or be a property key. -/
def startsName (c : Char) : Bool := c.isLower || c = '_' || c = '$'

def isDigitOrBreak (c : Char) : Bool := c.isDigit || c = '_'

def isGuard (c : Char) : Bool := isIdentifierChar c || isDelimiter c

def isInlineBlank (c : Char) : Bool :=
  c = ' ' || c = '\t' || c = '\r' || c = '\x0c' || c = '\x0b'

def keywords : List String := [
  "import", "export", "from", "const", "let", "var", "async", "await", "return", "new", "class",
  "interface", "type", "function", "extends", "implements", "typeof", "void", "null", "undefined",
  "true", "false", "default", "if", "else", "for", "while", "of", "in", "break", "continue"]

def isKeyword (word : List Char) : Bool := keywords.contains (String.ofList word)

end ScriptSpans.Lexicon
