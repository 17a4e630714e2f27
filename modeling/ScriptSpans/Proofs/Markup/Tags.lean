import ScriptSpans.Proofs.Markup.Escape
import Mathlib.Data.List.Basic

namespace ScriptSpans.Markup

/-- A tag, by what stands between its brackets, or a character outside all tags. -/
inductive Token
  | tag (inside : List Char)
  | char (c : Char)
deriving DecidableEq, Repr

def isBracket (c : Char) : Bool := c = '<' || c = '>'

/-- What stands in the tag that begins a text. The tag ends at the next bracket, which has to be a
closing one. -/
def tag? : List Char → Option (List Char)
  | [] => none
  | c :: rest =>
    let inside := rest.takeWhile (fun x ↦ !isBracket x)
    if c = '<' ∧ (rest.drop inside.length).head? = some '>' then some inside else none

/-- The number counts the characters of the last tag that are still to be passed over. -/
def tokensFrom : Nat → List Char → List Token
  | _, [] => []
  | skip + 1, _ :: rest => tokensFrom skip rest
  | 0, c :: rest =>
    match tag? (c :: rest) with
    | some inside => .tag inside :: tokensFrom (inside.length + 1) rest
    | none => .char c :: tokensFrom 0 rest

def tokens (text : List Char) : List Token := tokensFrom 0 text

def Token.char? : Token → Option Char
  | tag _ => none
  | char c => some c

def withoutTags (text : List Char) : List Char := (tokens text).filterMap Token.char?

def Token.inside? : Token → Option (List Char)
  | tag inside => some inside
  | char _ => none

def tags (text : List Char) : List (List Char) := (tokens text).filterMap Token.inside?

theorem tokensFrom_skip (skip : Nat) (text : List Char) :
    tokensFrom skip text = tokens (text.drop skip) := by
  induction text generalizing skip with
  | nil => cases skip <;> rfl
  | cons c rest ih =>
    cases skip with
    | zero => rfl
    | succ skip => exact ih skip

theorem tokens_char {c : Char} (h : c ≠ '<') (rest : List Char) :
    tokens (c :: rest) = .char c :: tokens rest := by
  have htag : tag? (c :: rest) = none := if_neg (fun hopen ↦ h hopen.1)
  rw [tokens, tokensFrom, htag, tokens]

theorem tokens_text {text : List Char} (h : '<' ∉ text) (rest : List Char) :
    tokens (text ++ rest) = text.map .char ++ tokens rest := by
  induction text with
  | nil => rfl
  | cons c text ih =>
    obtain ⟨hc, htext⟩ := not_or.mp (List.mem_cons.not.mp h)
    rw [List.cons_append, tokens_char (Ne.symm hc), ih htext, List.map_cons, List.cons_append]

theorem tokens_tag {inside : List Char} (h : ∀ c ∈ inside, isBracket c = false) (rest : List Char) :
    tokens ('<' :: inside ++ '>' :: rest) = .tag inside :: tokens rest := by
  have hinside : (inside ++ '>' :: rest).takeWhile (fun x ↦ !isBracket x) = inside := by
    rw [List.takeWhile_append_of_pos (fun c hc ↦ by simp [h c hc]),
      List.takeWhile_cons_of_neg (by decide), List.append_nil]
  have htag : tag? ('<' :: (inside ++ '>' :: rest)) = some inside := by
    rw [tag?, hinside, List.drop_left]
    exact if_pos ⟨rfl, rfl⟩
  have hrest : tokensFrom (inside.length + 1) (inside ++ '>' :: rest) = tokens rest := by
    rw [tokensFrom_skip, ← List.drop_drop, List.drop_left, List.drop_one, List.tail_cons]
  rw [tokens, List.cons_append, tokensFrom, htag]
  exact congrArg (Token.tag inside :: ·) hrest

theorem withoutTags_text {text : List Char} (h : '<' ∉ text) (rest : List Char) :
    withoutTags (text ++ rest) = text ++ withoutTags rest := by
  have hchars : (text.map Token.char).filterMap Token.char? = text := by
    rw [List.filterMap_map]
    exact List.filterMap_some
  rw [withoutTags, tokens_text h, List.filterMap_append, hchars, withoutTags]

theorem withoutTags_tag {inside : List Char} (h : ∀ c ∈ inside, isBracket c = false)
    (rest : List Char) :
    withoutTags ('<' :: inside ++ '>' :: rest) = withoutTags rest := by
  rw [withoutTags, tokens_tag h]
  rfl

theorem tags_text {text : List Char} (h : '<' ∉ text) (rest : List Char) :
    tags (text ++ rest) = tags rest := by
  have hnone : (text.map Token.char).filterMap Token.inside? = [] := by
    rw [List.filterMap_map]
    exact List.filterMap_eq_nil_iff.mpr (fun _ _ ↦ rfl)
  rw [tags, tokens_text h, List.filterMap_append, hnone, List.nil_append, tags]

theorem tags_tag {inside : List Char} (h : ∀ c ∈ inside, isBracket c = false) (rest : List Char) :
    tags ('<' :: inside ++ '>' :: rest) = inside :: tags rest := by
  rw [tags, tokens_tag h]
  rfl

theorem not_isBracket_of_mem_escapeBy {table : List Entity}
    (horder : table.Pairwise (fun a b ↦ b.char ∉ a.name))
    (hbrackets : ∀ bracket ∈ ['<', '>'], ∃ e ∈ table, e.char = bracket)
    (hnames : ∀ e ∈ table, ∀ c ∈ e.name, isBracket c = false) {text : List Char} :
    ∀ c ∈ escapeBy table text, isBracket c = false := by
  intro c hc
  rw [Bool.eq_false_iff]
  intro hbracket
  have hmem : c ∈ ['<', '>'] := by simpa [isBracket] using hbracket
  have hname : ∀ e ∈ table, c ∉ e.name := fun e he hin ↦ by simp [hnames e he c hin] at hbracket
  exact not_mem_escapeBy horder (hbrackets c hmem) hname hc

theorem not_isBracket_of_mem_escapeList {text : List Char} :
    ∀ c ∈ escapeList text, isBracket c = false :=
  not_isBracket_of_mem_escapeBy (by decide) (by simp [entities]) (by simp [entities, isBracket])

theorem not_isBracket_of_mem_escapeAttribute {text : String} :
    ∀ c ∈ (escapeAttribute text).toList, isBracket c = false := by
  rw [escapeAttribute, String.toList_ofList]
  apply not_isBracket_of_mem_escapeBy (by decide)
  · simp [attributeEntities, entities]
  · simp [attributeEntities, entities, isBracket]

theorem not_mem_escapeList {x : Char} (hentity : x ∉ entityChars) {text : List Char}
    (h : x ∉ text) :
    x ∉ escapeList text := by
  have hentities : ∀ y ∈ entityChars, x ≠ y := fun y hy heq ↦ hentity (heq ▸ hy)
  intro hx
  rw [escapeList_eq_flatMap] at hx
  obtain ⟨c, hc, hx⟩ := List.mem_flatMap.mp hx
  have hne : x ≠ c := fun heq ↦ h (heq ▸ hc)
  exact forall_mem_escapeChar hentities hne x hx rfl

end ScriptSpans.Markup
