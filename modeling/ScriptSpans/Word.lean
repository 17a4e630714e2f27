import ScriptSpans.Lexicon
import ScriptSpans.Markup
import ScriptSpans.Ownership

namespace ScriptSpans

open Lexicon

/-- A word with its place in the line: the character before it, if any, and the text after it. -/
structure Word where
  start : Nat
  previous : Option Char
  chars : List Char
  after : List Char

namespace Word

def length (w : Word) : Nat := w.chars.length

def stop (w : Word) : Nat := w.start + w.length

def firstIs (w : Word) (p : Char → Bool) : Bool := w.chars.head?.any p

def claim (w : Word) (category : Category) : Claim := ⟨w.start, w.length, category⟩

/-- The words of a text that begins at `position` after the character `previous`. The second number
counts the characters of the last word or entity that are still to be passed over. -/
def scan (isOwned : Nat → Bool) (position : Nat) (previous : Option Char) :
    Nat → List Char → List Word
  | _, [] => []
  | skip + 1, c :: rest => scan isOwned (position + 1) (some c) skip rest
  | 0, c :: rest =>
    if isOwned position then scan isOwned (position + 1) (some c) 0 rest
    else
      match Markup.entityLength? (c :: rest) with
      | some length => scan isOwned (position + 1) (some c) (length - 1) rest
      | none =>
        if isIdentifierChar c then
          let more := rest.takeWhile isIdentifierChar
          ⟨position, previous, c :: more, rest.dropWhile isIdentifierChar⟩ ::
            scan isOwned (position + 1) (some c) more.length rest
        else scan isOwned (position + 1) (some c) 0 rest

def ofText (ownership : Ownership) (text : List Char) : List Word :=
  scan ownership.isOwned 0 none 0 text

end Word

end ScriptSpans
