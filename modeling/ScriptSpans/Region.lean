import ScriptSpans.Lexicon
import ScriptSpans.Ownership

namespace ScriptSpans.Region

open Lexicon

/-- Length of what is left of a template, up to its backtick. A backslash means nothing here. -/
def templateLength : List Char → Nat
  | [] => 0
  | c :: rest => if isBacktick c then 1 else templateLength rest + 1

/-- Length of what is left of a string, up to its quote. A backslash takes the next character with
it. -/
def quotedLength (quote : Char) : List Char → Nat
  | [] => 0
  | c :: rest =>
    if isBackslash c then
      match rest with
      | [] => 1
      | _ :: rest => quotedLength quote rest + 2
    else if c = quote then 1
    else quotedLength quote rest + 1

def literal? : List Char → Option (Nat × Category)
  | [] => none
  | c :: rest =>
    if isBacktick c then some (templateLength rest + 1, .templateString)
    else if isQuote c then some (quotedLength c rest + 1, .string)
    else none

theorem templateLength_le (text : List Char) : templateLength text ≤ text.length := by
  induction text with
  | nil => exact Nat.le_refl 0
  | cons c rest ih =>
    rw [templateLength, List.length_cons]
    split <;> omega

theorem quotedLength_cons {quote c : Char} (h : isBackslash c = false) (rest : List Char) :
    quotedLength quote (c :: rest) = if c = quote then 1 else quotedLength quote rest + 1 := by
  cases rest <;> simp [quotedLength, h]

theorem quotedLength_backslash {quote c : Char} (h : isBackslash c) (next : Char)
    (rest : List Char) :
    quotedLength quote (c :: next :: rest) = quotedLength quote rest + 2 := by
  simp [quotedLength, h]

theorem quotedLength_le (quote : Char) (text : List Char) :
    quotedLength quote text ≤ text.length := by
  fun_induction quotedLength quote text with
  | case1 => exact Nat.le_refl 0
  | case2 => exact Nat.le_refl 1
  | case3 => simp only [List.length_cons]; omega
  | case4 => simp
  | case5 => simp only [List.length_cons]; omega

theorem literal?_length {text : List Char} {length : Nat} {category : Category}
    (h : literal? text = some (length, category)) : 0 < length ∧ length ≤ text.length := by
  cases text with
  | nil => cases h
  | cons c rest =>
    have ht := templateLength_le rest
    have hq := quotedLength_le c rest
    rw [literal?] at h
    split at h
    · cases h
      exact ⟨Nat.succ_pos _, Nat.succ_le_succ ht⟩
    · split at h
      · cases h
        exact ⟨Nat.succ_pos _, Nat.succ_le_succ hq⟩
      · cases h

def commentMark : List Char := ['/', '/']

/-- Where the comment of a text that begins at `position` opens. The second number counts the
characters of the last literal that are still to be passed over. -/
def commentStart? (position : Nat) : Nat → List Char → Option Nat
  | _, [] => none
  | skip + 1, _ :: rest => commentStart? (position + 1) skip rest
  | 0, c :: rest =>
    match literal? (c :: rest) with
    | some (length, _) => commentStart? (position + 1) (length - 1) rest
    | none =>
      if commentMark.isPrefixOf (c :: rest) then some position
      else commentStart? (position + 1) 0 rest

def codeEnd (text : List Char) : Nat := (commentStart? 0 0 text).getD text.length

def comment (text : List Char) : List Claim :=
  match commentStart? 0 0 text with
  | none => []
  | some start => [⟨start, text.length - start, .comment⟩]

/-- The literals, before `limit`, of a text that begins at `position`, from left to right. The third
number counts the characters of the last literal that are still to be passed over. -/
def literalsFrom (limit position : Nat) : Nat → List Char → List Claim
  | _, [] => []
  | skip + 1, _ :: rest => literalsFrom limit (position + 1) skip rest
  | 0, c :: rest =>
    if limit ≤ position then []
    else
      match literal? (c :: rest) with
      | some (length, category) =>
        ⟨position, length, category⟩ :: literalsFrom limit (position + 1) (length - 1) rest
      | none => literalsFrom limit (position + 1) 0 rest

def literals (text : List Char) : List Claim := literalsFrom (codeEnd text) 0 0 text

end ScriptSpans.Region
