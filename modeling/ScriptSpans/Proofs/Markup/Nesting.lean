import ScriptSpans.Proofs.Markup.Tags

namespace ScriptSpans.Markup

def tagName (inside : List Char) : List Char := inside.takeWhile (fun c ↦ c ≠ ' ')

/-- Reads tags after others that are still open, the last one first. A closing tag has to name the
last. -/
def nestsFrom : List (List Char) → List Token → Bool
  | unclosed, [] => unclosed.isEmpty
  | unclosed, .char _ :: later => nestsFrom unclosed later
  | unclosed, .tag inside :: later =>
    match inside with
    | '/' :: name => unclosed.head? = some name && nestsFrom unclosed.tail later
    | _ => nestsFrom (tagName inside :: unclosed) later

def Nests (text : List Char) : Prop := nestsFrom [] (tokens text)

instance (text : List Char) : Decidable (Nests text) := inferInstanceAs (Decidable (_ = true))

def IsName (name : List Char) : Prop := ∀ c ∈ name, c.isLower

structure IsAttributes (text : List Char) : Prop where
  space : text.head?.all (fun c ↦ c = ' ')
  inside : ∀ c ∈ text, isBracket c = false

inductive Shows : List Char → List Char → Prop
  | text (shown : List Char) : Shows (escapeList shown) shown
  | append {first later shown shownLater : List Char} (head : Shows first shown)
      (tail : Shows later shownLater) :
      Shows (first ++ later) (shown ++ shownLater)
  | element {name attributes markup shown : List Char} (named : IsName name)
      (opened : IsAttributes attributes)
      (inner : Shows markup shown) :
      Shows ('<' :: (name ++ attributes) ++ '>' :: (markup ++ ('<' :: '/' :: name ++ ['>']))) shown

section element

variable {name attributes : List Char} (hname : IsName name)
include hname

theorem IsName.inside : ∀ c ∈ name, isBracket c = false := by
  intro c hc
  have hlower := hname c hc
  rw [Bool.eq_false_iff]
  intro hbracket
  simp only [isBracket, Bool.or_eq_true, decide_eq_true_eq] at hbracket
  rcases hbracket with rfl | rfl <;> cases hlower

theorem IsName.inside_opening (hattributes : IsAttributes attributes) :
    ∀ c ∈ name ++ attributes, isBracket c = false :=
  List.forall_mem_append.mpr ⟨hname.inside, hattributes.inside⟩

theorem IsName.inside_closing : ∀ c ∈ '/' :: name, isBracket c = false :=
  List.forall_mem_cons.mpr ⟨rfl, hname.inside⟩

theorem tagName_append (hattributes : IsAttributes attributes) :
    tagName (name ++ attributes) = name := by
  have hspace : ∀ c ∈ name, decide (c ≠ ' ') = true := by
    intro c hc
    apply decide_eq_true
    rintro rfl
    cases hname ' ' hc
  rw [tagName, List.takeWhile_append_of_pos hspace]
  cases attributes with
  | nil => exact List.append_nil name
  | cons c rest =>
    have hc : c = ' ' := by simpa using hattributes.space
    rw [hc, List.takeWhile_cons_of_neg (by simp), List.append_nil]

theorem not_closing (hattributes : IsAttributes attributes) (rest : List Char) :
    name ++ attributes ≠ '/' :: rest := by
  intro hslash
  cases name with
  | nil =>
    have hspace := hattributes.space
    rw [List.nil_append] at hslash
    rw [hslash] at hspace
    cases hspace
  | cons c more =>
    have hlower := hname c List.mem_cons_self
    obtain ⟨rfl, -⟩ := List.cons.inj hslash
    cases hlower

theorem nestsFrom_opening (hattributes : IsAttributes attributes) (unclosed : List (List Char))
    (later : List Token) :
    nestsFrom unclosed (.tag (name ++ attributes) :: later) =
      nestsFrom (name :: unclosed) later := by
  rw [nestsFrom, tagName_append hname hattributes]
  exact not_closing hname hattributes

end element

theorem nestsFrom_closing (name : List Char) (unclosed : List (List Char)) (later : List Token) :
    nestsFrom (name :: unclosed) (.tag ('/' :: name) :: later) = nestsFrom unclosed later := by
  simp only [nestsFrom, List.head?_cons, List.tail_cons, decide_true, Bool.true_and]

theorem nestsFrom_chars (unclosed : List (List Char)) (text : List Char) (later : List Token) :
    nestsFrom unclosed (text.map .char ++ later) = nestsFrom unclosed later := by
  induction text with
  | nil => rfl
  | cons c text ih => exact ih

/-- Markup is read the same before any rest: its characters are the escaped text, and its tags leave
those that were open before it as they were. -/
theorem Shows.tokens {markup shown : List Char} (h : Shows markup shown) :
    ∃ read : List Token, (∀ rest, tokens (markup ++ rest) = read ++ tokens rest) ∧
      read.filterMap Token.char? = escapeList shown ∧
      ∀ unclosed later, nestsFrom unclosed (read ++ later) = nestsFrom unclosed later := by
  induction h with
  | text shown =>
    have hopen : '<' ∉ escapeList shown :=
      fun hmem ↦ Bool.noConfusion (not_isBracket_of_mem_escapeList _ hmem)
    refine ⟨(escapeList shown).map .char, fun rest ↦ tokens_text hopen rest, ?_,
      fun unclosed ↦ nestsFrom_chars unclosed _⟩
    rw [List.filterMap_map]
    exact List.filterMap_some
  | append _ _ ihhead ihtail =>
    obtain ⟨first, hfirst, hchars, hnests⟩ := ihhead
    obtain ⟨second, hsecond, hcharsLater, hnestsLater⟩ := ihtail
    refine ⟨first ++ second, ?_, ?_, ?_⟩
    · intro rest
      rw [List.append_assoc, hfirst, hsecond, List.append_assoc]
    · rw [List.filterMap_append, hchars, hcharsLater, escapeList_append]
    · intro unclosed later
      rw [List.append_assoc, hnests, hnestsLater]
  | @element name attributes markup shown named opened _ ih =>
    obtain ⟨read, hread, hchars, hnests⟩ := ih
    refine ⟨.tag (name ++ attributes) :: (read ++ [.tag ('/' :: name)]), ?_, ?_, ?_⟩
    · intro rest
      have hopened :=
        tokens_tag (named.inside_opening opened) (markup ++ ('<' :: ('/' :: name) ++ '>' :: rest))
      have hclosed := tokens_tag named.inside_closing rest
      rw [hread, hclosed] at hopened
      simpa only [List.cons_append, List.append_assoc, List.nil_append] using hopened
    · rw [List.filterMap_cons_none (by rfl), List.filterMap_append, hchars]
      exact List.append_nil _
    · intro unclosed later
      rw [List.cons_append, nestsFrom_opening named opened, List.append_assoc, hnests,
        List.singleton_append, nestsFrom_closing]

theorem Shows.nests {markup shown : List Char} (h : Shows markup shown) : Nests markup := by
  obtain ⟨read, hread, -, hnests⟩ := h.tokens
  have hmarkup := hread []
  have hall := hnests [] []
  rw [List.append_nil] at hmarkup hall
  have hnil : Markup.tokens [] = [] := rfl
  rw [hnil, List.append_nil] at hmarkup
  rw [Nests, hmarkup, hall]
  rfl

theorem Shows.withoutTags {markup shown : List Char} (h : Shows markup shown) :
    withoutTags markup = escapeList shown := by
  obtain ⟨read, hread, hchars, -⟩ := h.tokens
  have hmarkup := hread []
  have hnil : Markup.tokens [] = [] := rfl
  rw [List.append_nil, hnil, List.append_nil] at hmarkup
  rw [Markup.withoutTags, hmarkup, hchars]

end ScriptSpans.Markup
