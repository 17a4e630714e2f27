import ScriptSpans.Json.Value
import ScriptSpans.Text.Numeral

namespace ScriptSpans.Json

inductive Flaw
  | byteOrderMark
  | noValue
  | noName
  | noColon
  | noComma
  | openString
  | controlCharacter
  | badEscape
  | badUnicodeEscape
  | extraData
deriving DecidableEq, Repr

def Flaw.text : Flaw → String
  | .byteOrderMark => "Unexpected UTF-8 BOM (decode using utf-8-sig)"
  | .noValue => "Expecting value"
  | .noName => "Expecting property name enclosed in double quotes"
  | .noColon => "Expecting ':' delimiter"
  | .noComma => "Expecting ',' delimiter"
  | .openString => "Unterminated string starting at"
  | .controlCharacter => "Invalid control character at"
  | .badEscape => "Invalid \\escape"
  | .badUnicodeEscape => "Invalid \\uXXXX escape"
  | .extraData => "Extra data"

/-- Why reading stopped: a flaw at the start of `rest`, or an integer with too many digits to
convert. -/
inductive Stop
  | flaw (cause : Flaw) (rest : List Char)
  | hugeInteger (digits : Nat)

abbrev Reading (α : Type) := Except Stop (α × List Char)

def isSpace (c : Char) : Bool :=
  c = ' ' || c = '\t' || c = '\n' || c = '\r'

def skipSpace (text : List Char) : List Char := text.dropWhile isSpace

def namedEscape? : Char → Option Char
  | '\x22' => some '\x22'
  | '\x5c' => some '\x5c'
  | '/' => some '/'
  | 'b' => some '\x08'
  | 'f' => some '\x0c'
  | 'n' => some '\n'
  | 'r' => some '\r'
  | 't' => some '\t'
  | _ => none

/-- The second half of a surrogate pair, if an escape for one begins the text and more follows
it. -/
def lowHalf? (text : List Char) : Except Stop (Option Nat) :=
  match text with
  | '\x5c' :: 'u' :: a :: b :: c :: d :: _ :: _ =>
    match Text.hexWord? a b c d with
    | none => .error (.flaw .badUnicodeEscape (text.drop 1))
    | some n => .ok (if 0xdc00 ≤ n ∧ n < 0xe000 then some n else none)
  | _ => .ok none

/-- Reads the escape that begins with the letter `u`: its character and its length. Half a surrogate
pair without the other half is no character and reads as U+FFFD. -/
def unicodeEscape (text : List Char) : Except Stop (Char × Nat) :=
  match text with
  | _ :: a :: b :: c :: d :: next :: rest =>
    match Text.hexWord? a b c d with
    | none => .error (.flaw .badUnicodeEscape text)
    | some n =>
      if 0xd800 ≤ n ∧ n < 0xdc00 then
        match lowHalf? (next :: rest) with
        | .error stop => .error stop
        | .ok (some low) =>
          .ok (Char.ofNat (0x10000 + (n - 0xd800) * 0x400 + (low - 0xdc00)), 11)
        | .ok none => .ok ('\ufffd', 5)
      else if 0xdc00 ≤ n ∧ n < 0xe000 then .ok ('\ufffd', 5)
      else .ok (Char.ofNat n, 5)
  | _ => .error (.flaw .badUnicodeEscape text)

def readEscape (opening text : List Char) : Except Stop (Char × Nat) :=
  match text.drop 1 with
  | [] => .error (.flaw .openString opening)
  | 'u' :: digits => unicodeEscape ('u' :: digits)
  | c :: _ =>
    match namedEscape? c with
    | some char => .ok (char, 1)
    | none => .error (.flaw .badEscape text)

/-- Reads a string up to its closing quote. `opening` is the text from the opening quote on, `read`
holds the characters so far, last first, and the number counts those of the last escape still to be
passed over. -/
def readString (opening : List Char) (read : List Char) : Nat → List Char → Reading String
  | _, [] => .error (.flaw .openString opening)
  | skip + 1, _ :: rest => readString opening read skip rest
  | 0, c :: rest =>
    if c = '\x22' then .ok (String.ofList read.reverse, rest)
    else if c = '\x5c' then
      match readEscape opening (c :: rest) with
      | .error stop => .error stop
      | .ok (char, length) => readString opening (char :: read) length rest
    else if c.toNat < 0x20 then .error (.flaw .controlCharacter (c :: rest))
    else readString opening (c :: read) 0 rest

structure Numeral where
  negative : Bool
  whole : List Char
  fraction : List Char
  exponent : Option (Bool × List Char)

def digitsValue (digits : List Char) : Nat :=
  digits.foldl (fun n c ↦ n * 10 + (c.toNat - 0x30)) 0

def integerDigitLimit : Nat := Text.digitLimit

def Numeral.value (n : Numeral) : Except Stop Value :=
  if n.fraction.isEmpty ∧ n.exponent.isNone then
    if integerDigitLimit < n.whole.length then .error (.hugeInteger n.whole.length)
    else
      let size : Int := digitsValue n.whole
      .ok (.integer (if n.negative then -size else size))
  else
    let power : Int :=
      match n.exponent with
      | none => 0
      | some (true, digits) => -(digitsValue digits : Int)
      | some (false, digits) => digitsValue digits
    let size : Decimal.Scientific :=
      ⟨digitsValue (n.whole ++ n.fraction), power - n.fraction.length⟩
    .ok (.real (if n.negative then -size.toFloat else size.toFloat))

def readFraction (text : List Char) : List Char × List Char :=
  match text with
  | '.' :: rest =>
    if (rest.takeWhile Char.isDigit).isEmpty then ([], text)
    else (rest.takeWhile Char.isDigit, rest.dropWhile Char.isDigit)
  | _ => ([], text)

def readSign (text : List Char) : Bool × List Char :=
  match text with
  | '-' :: rest => (true, rest)
  | '+' :: rest => (false, rest)
  | _ => (false, text)

def readExponent (text : List Char) : Option (Bool × List Char) × List Char :=
  match text with
  | c :: rest =>
    let (negative, digits) := readSign rest
    if (c = 'e' ∨ c = 'E') ∧ !(digits.takeWhile Char.isDigit).isEmpty then
      (some (negative, digits.takeWhile Char.isDigit), digits.dropWhile Char.isDigit)
    else (none, text)
  | [] => (none, text)

/-- The longest number that begins the text. A leading zero stands alone. -/
def readNumeral? (text : List Char) : Option (Numeral × List Char) :=
  let (negative, unsigned) :=
    match text with
    | '-' :: rest => (true, rest)
    | _ => (false, text)
  let (whole, afterWhole) :=
    match unsigned with
    | '0' :: rest => (['0'], rest)
    | _ => (unsigned.takeWhile Char.isDigit, unsigned.dropWhile Char.isDigit)
  if whole.isEmpty then none
  else
    let (fraction, afterFraction) := readFraction afterWhole
    let (exponent, rest) := readExponent afterFraction
    some (⟨negative, whole, fraction, exponent⟩, rest)

def literals : List (List Char × Value) := [
  (['n', 'u', 'l', 'l'], .null),
  (['t', 'r', 'u', 'e'], .boolean true),
  (['f', 'a', 'l', 's', 'e'], .boolean false),
  (['N', 'a', 'N'], .real (0.0 / 0.0)),
  (['I', 'n', 'f', 'i', 'n', 'i', 't', 'y'], .real (1.0 / 0.0)),
  (['-', 'I', 'n', 'f', 'i', 'n', 'i', 't', 'y'], .real (-1.0 / 0.0))]

def readScalar (text : List Char) : Reading Value :=
  match literals.find? (fun literal ↦ literal.1.isPrefixOf text) with
  | some (spelling, value) => .ok (value, text.drop spelling.length)
  | none =>
    match readNumeral? text with
    | none => .error (.flaw .noValue text)
    | some (numeral, rest) => numeral.value.map (fun value ↦ (value, rest))

mutual

/-- Reads one value. The number bounds the calls in progress; twice the length of the text and one
is enough, since of two calls in a row one reads a character. -/
def readValue : Nat → List Char → Reading Value
  | 0, text => .error (.flaw .noValue text)
  | fuel + 1, text =>
    match text with
    | '\x22' :: rest => (readString text [] 0 rest).map (fun (s, rest) ↦ (.string s, rest))
    | '[' :: rest =>
      match skipSpace rest with
      | ']' :: after => .ok (.array [], after)
      | inside => (readItems fuel inside).map (fun (items, rest) ↦ (.array items, rest))
    | '\x7b' :: rest =>
      match skipSpace rest with
      | '\x7d' :: after => .ok (.object [], after)
      | inside => (readMembers fuel inside).map (fun (members, rest) ↦ (.object members, rest))
    | _ => readScalar text

def readItems : Nat → List Char → Reading (List Value)
  | 0, text => .error (.flaw .noValue text)
  | fuel + 1, text =>
    match readValue fuel text with
    | .error stop => .error stop
    | .ok (item, rest) =>
      match skipSpace rest with
      | ']' :: after => .ok ([item], after)
      | ',' :: after =>
        (readItems fuel (skipSpace after)).map (fun (items, rest) ↦ (item :: items, rest))
      | other => .error (.flaw .noComma other)

def readMembers : Nat → List Char → Reading (List (String × Value))
  | 0, text => .error (.flaw .noName text)
  | fuel + 1, text =>
    match text with
    | '\x22' :: afterQuote =>
      match readString text [] 0 afterQuote with
      | .error stop => .error stop
      | .ok (name, rest) =>
        match skipSpace rest with
        | ':' :: afterColon =>
          match readValue fuel (skipSpace afterColon) with
          | .error stop => .error stop
          | .ok (value, rest) =>
            match skipSpace rest with
            | '\x7d' :: after => .ok ([(name, value)], after)
            | ',' :: after =>
              (readMembers fuel (skipSpace after)).map
                (fun (members, rest) ↦ ((name, value) :: members, rest))
            | other => .error (.flaw .noComma other)
        | other => .error (.flaw .noColon other)
    | other => .error (.flaw .noName other)

end

def readText (text : List Char) : Except Stop Value :=
  if text.head? = some '\ufeff' then .error (.flaw .byteOrderMark text)
  else
    match readValue (2 * text.length + 1) (skipSpace text) with
    | .error stop => .error stop
    | .ok (value, rest) =>
      match skipSpace rest with
      | [] => .ok value
      | other => .error (.flaw .extraData other)

/-- A place in a text: lines and columns count from one, offsets from zero. -/
structure Place where
  line : Nat
  column : Nat
  offset : Nat
deriving DecidableEq, Repr

def Place.after (before : List Char) : Place :=
  ⟨before.count '\n' + 1, (before.reverse.takeWhile (· ≠ '\n')).length + 1, before.length⟩

inductive ReadError
  | invalid (flaw : Flaw) (place : Place)
  | hugeInteger (digits : Nat)
deriving DecidableEq, Repr

def ReadError.message : ReadError → String
  | .invalid flaw place =>
    s!"{flaw.text}: line {place.line} column {place.column} (char {place.offset})"
  | .hugeInteger digits =>
    s!"Exceeds the limit ({integerDigitLimit} digits) for integer string conversion: value has " ++
      s!"{digits} digits; use sys.set_int_max_str_digits() to increase the limit"

def Stop.located (text : List Char) : Stop → ReadError
  | .flaw cause rest => .invalid cause (Place.after (text.take (text.length - rest.length)))
  | .hugeInteger digits => .hugeInteger digits

def Value.read (text : String) : Except ReadError Value :=
  match readText text.toList with
  | .ok value => .ok value
  | .error stop => .error (stop.located text.toList)

end ScriptSpans.Json
