import ScriptSpans.Markup

namespace ScriptSpans.Markup

open Text

def escapeCharBy (table : List Entity) (c : Char) : List Char :=
  match table.find? (fun e ↦ e.char = c) with
  | none => [c]
  | some e => e.name

def escapeChar (c : Char) : List Char := escapeCharBy entities c

theorem substitute_singleton (c : Char) (replacement text : List Char) :
    substitute [c] replacement text = text.flatMap
      (fun x ↦ if c = x then replacement else [x]) := by
  unfold substitute
  induction text with
  | nil => rfl
  | cons x rest ih =>
    by_cases hx : c = x
    · subst hx
      simp [substituteFrom, ih]
    · simp [substituteFrom, hx, ih]

theorem escapeCharBy_cons (e : Entity) (table : List Entity) (c : Char) :
    escapeCharBy (e :: table) c = if e.char = c then e.name else escapeCharBy table c := by
  by_cases h : e.char = c <;> simp [escapeCharBy, h]

theorem escapeCharBy_of_forall_ne {table : List Entity} {c : Char} (h : ∀ e ∈ table, e.char ≠ c) :
    escapeCharBy table c = [c] := by
  induction table with
  | nil => rfl
  | cons e table ih =>
    rw [escapeCharBy_cons, if_neg (h e (by simp)), ih (fun e he ↦ h e (by simp [he]))]

/-- The order of a table is right when no name holds a character that is escaped after it. -/
theorem escapeBy_eq_flatMap {table : List Entity}
    (h : table.Pairwise (fun a b ↦ b.char ∉ a.name)) (text : List Char) :
    escapeBy table text = text.flatMap (escapeCharBy table) := by
  induction table generalizing text with
  | nil =>
    have hone : escapeCharBy [] = fun c ↦ [c] := rfl
    rw [hone, List.flatMap_singleton']
    rfl
  | cons e table ih =>
    obtain ⟨he, htable⟩ := List.pairwise_cons.mp h
    have hname : e.name.flatMap (escapeCharBy table) = e.name := by
      have hpoint : ∀ c ∈ e.name, escapeCharBy table c = [c] := fun c hc ↦
        escapeCharBy_of_forall_ne (fun d hd h ↦ he d hd (h ▸ hc))
      rw [List.flatMap_def, List.map_congr_left hpoint, ← List.flatMap_def, List.flatMap_singleton']
    have hstep : escapeBy (e :: table) text = escapeBy table (substitute [e.char] e.name text) :=
      rfl
    rw [hstep, ih htable, substitute_singleton, List.flatMap_assoc]
    congr 1
    funext c
    rw [escapeCharBy_cons]
    split
    · exact hname
    · simp

theorem not_mem_escapeBy {table : List Entity} (horder : table.Pairwise (fun a b ↦ b.char ∉ a.name))
    {x : Char} (hescaped : ∃ e ∈ table, e.char = x) (hnames : ∀ e ∈ table, x ∉ e.name)
    {text : List Char} :
    x ∉ escapeBy table text := by
  rw [escapeBy_eq_flatMap horder]
  intro hx
  obtain ⟨c, -, hc⟩ := List.mem_flatMap.mp hx
  rw [escapeCharBy] at hc
  split at hc
  · rename_i hnone
    obtain rfl := List.mem_singleton.mp hc
    obtain ⟨e, he, hchar⟩ := hescaped
    exact List.find?_eq_none.mp hnone e he (decide_eq_true hchar)
  · rename_i e hsome
    exact hnames e (List.mem_of_find?_eq_some hsome) hc

theorem escapeList_eq_flatMap (text : List Char) : escapeList text = text.flatMap escapeChar :=
  escapeBy_eq_flatMap (by decide) text

@[simp] theorem escapeList_nil : escapeList [] = [] := rfl

theorem escapeList_cons (c : Char) (text : List Char) :
    escapeList (c :: text) = escapeChar c ++ escapeList text := by
  simp [escapeList_eq_flatMap]

@[simp] theorem escapeList_append (a b : List Char) :
    escapeList (a ++ b) = escapeList a ++ escapeList b := by
  simp [escapeList_eq_flatMap]

def isMarkup (c : Char) : Bool := c = '&' || c = '<' || c = '>'

theorem markup_cases {c : Char} (h : isMarkup c) : c = '&' ∨ c = '<' ∨ c = '>' := by
  simpa only [isMarkup, Bool.or_eq_true, decide_eq_true_eq, or_assoc] using h

theorem escapeChar_eq (c : Char) :
    escapeChar c =
      if c = '&' then ['&', 'a', 'm', 'p', ';']
      else if c = '<' then ['&', 'l', 't', ';']
      else if c = '>' then ['&', 'g', 't', ';']
      else [c] := by
  simp only [escapeChar, entities, escapeCharBy_cons, eq_comm (b := c)]
  rfl

theorem escapeChar_of_not_markup {c : Char} (h : isMarkup c = false) : escapeChar c = [c] := by
  simp only [isMarkup, Bool.or_eq_false_iff, decide_eq_false_iff_not] at h
  simp [escapeChar_eq, h]

theorem length_escapeChar_pos (c : Char) : 0 < (escapeChar c).length := by
  rw [escapeChar_eq]
  repeat' split
  all_goals simp

def entityChars : List Char := ['&', 'a', 'm', 'p', ';', 'l', 't', 'g']

theorem forall_mem_escapeChar {p : Char → Prop} (hentity : ∀ x ∈ entityChars, p x)
    {c : Char} (hc : p c) :
    ∀ x ∈ escapeChar c, p x := by
  have hsub : ∀ name : List Char, name ⊆ entityChars → ∀ x ∈ name, p x :=
    fun name hname x hx ↦ hentity x (hname hx)
  rw [escapeChar_eq]
  split
  · exact hsub _ (by decide)
  split
  · exact hsub _ (by decide)
  split
  · exact hsub _ (by decide)
  · simpa using hc

theorem escapeChar_of_markup {c : Char} (h : isMarkup c) :
    ∃ name, escapeChar c = '&' :: name ∧ ∀ x ∈ name, x ∈ entityChars ∧ x ≠ '&' := by
  rcases markup_cases h with rfl | rfl | rfl
  · exact ⟨['a', 'm', 'p', ';'], rfl, by simp [entityChars]⟩
  · exact ⟨['l', 't', ';'], rfl, by simp [entityChars]⟩
  · exact ⟨['g', 't', ';'], rfl, by simp [entityChars]⟩

theorem escapeList_cons_of_not_markup {c : Char} (h : isMarkup c = false) (text : List Char) :
    escapeList (c :: text) = c :: escapeList text := by
  rw [escapeList_cons, escapeChar_of_not_markup h, List.singleton_append]

theorem escapeList_eq_self {text : List Char} (h : ∀ c ∈ text, isMarkup c = false) :
    escapeList text = text := by
  induction text with
  | nil => rfl
  | cons c text ih =>
    rw [escapeList_cons_of_not_markup (h c (by simp)), ih (fun x hx ↦ h x (by simp [hx]))]

section scan

variable {p : Char → Bool} (hp : ∀ c, isMarkup c → p c = false)
include hp

theorem any_head?_escapeList (text : List Char) :
    (escapeList text).head?.any p = text.head?.any p := by
  cases text with
  | nil => rfl
  | cons c text =>
    by_cases hc : isMarkup c
    · obtain ⟨name, hname, -⟩ := escapeChar_of_markup hc
      simp [escapeList_cons, hname, hp c hc, hp '&' rfl]
    · rw [escapeList_cons_of_not_markup (by simpa using hc)]
      rfl

theorem takeWhile_escapeList (text : List Char) :
    (escapeList text).takeWhile p = text.takeWhile p := by
  induction text with
  | nil => rfl
  | cons c text ih =>
    by_cases hc : isMarkup c
    · obtain ⟨name, hname, -⟩ := escapeChar_of_markup hc
      simp [escapeList_cons, hname, hp c hc, hp '&' rfl]
    · rw [escapeList_cons_of_not_markup (by simpa using hc), List.takeWhile_cons,
        List.takeWhile_cons, ih]

theorem dropWhile_escapeList (text : List Char) :
    (escapeList text).dropWhile p = escapeList (text.dropWhile p) := by
  induction text with
  | nil => rfl
  | cons c text ih =>
    by_cases hc : isMarkup c
    · obtain ⟨name, hname, -⟩ := escapeChar_of_markup hc
      simp [escapeList_cons, hname, hp c hc, hp '&' rfl]
    · rw [escapeList_cons_of_not_markup (by simpa using hc), List.dropWhile_cons,
        List.dropWhile_cons, ih]
      split
      · rfl
      · exact (escapeList_cons_of_not_markup (by simpa using hc) text).symm

end scan

theorem head?_escapeList_eq_some {c : Char} (hc : isMarkup c = false) (text : List Char) :
    (escapeList text).head? = some c ↔ text.head? = some c := by
  have hp : ∀ x, isMarkup x → (x == c) = false := by
    rintro x hx
    rw [beq_eq_false_iff_ne]
    rintro rfl
    rw [hc] at hx
    cases hx
  have hsome : ∀ head : Option Char, head = some c ↔ head.any (· == c) := by
    intro head
    cases head <;> simp
  rw [hsome, hsome, any_head?_escapeList hp]

theorem drop_escapeList {text : List Char} {count : Nat}
    (h : ∀ c ∈ text.take count, isMarkup c = false) :
    (escapeList text).drop count = escapeList (text.drop count) := by
  induction text generalizing count with
  | nil => simp
  | cons c text ih =>
    cases count with
    | zero => rfl
    | succ count =>
      rw [List.take_succ_cons] at h
      obtain ⟨hc, htext⟩ := List.forall_mem_cons.mp h
      rw [escapeList_cons_of_not_markup hc, List.drop_succ_cons, List.drop_succ_cons, ih htext]

def width (text : List Char) : Nat := (escapeList text).length

@[simp] theorem width_nil : width [] = 0 := rfl

theorem width_cons (c : Char) (text : List Char) :
    width (c :: text) = (escapeChar c).length + width text := by
  simp [width, escapeList_cons]

@[simp] theorem width_append (a b : List Char) : width (a ++ b) = width a + width b := by
  simp [width]

theorem width_pos {text : List Char} (h : text ≠ []) : 0 < width text := by
  obtain ⟨c, text, rfl⟩ := List.exists_cons_of_ne_nil h
  have hc := length_escapeChar_pos c
  rw [width_cons]
  omega

theorem width_eq_length {text : List Char} (h : ∀ c ∈ text, isMarkup c = false) :
    width text = text.length := by
  rw [width, escapeList_eq_self h]

/-- One pass that reads each entity as its character. -/
def decode : List Char → List Char
  | '&' :: 'a' :: 'm' :: 'p' :: ';' :: rest => '&' :: decode rest
  | '&' :: 'l' :: 't' :: ';' :: rest => '<' :: decode rest
  | '&' :: 'g' :: 't' :: ';' :: rest => '>' :: decode rest
  | c :: rest => c :: decode rest
  | [] => []

def readEntity (e : Entity) (text : List Char) : List Char := substitute e.name [e.char] text

theorem substituteFrom_skip (pattern replacement : List Char) (skip : Nat) (text : List Char) :
    substituteFrom pattern replacement skip text =
      substituteFrom pattern replacement 0 (text.drop skip) := by
  induction text generalizing skip with
  | nil => cases skip <;> simp [substituteFrom]
  | cons c rest ih =>
    cases skip with
    | zero => rfl
    | succ skip => rw [substituteFrom, ih, List.drop_succ_cons]

section readEntity

variable {e : Entity} {name : List Char} (he : e.name = '&' :: name)
include he

theorem readEntity_name (rest : List Char) :
    readEntity e ('&' :: name ++ rest) = e.char :: readEntity e rest := by
  have hp : ('&' :: name).isPrefixOf ('&' :: (name ++ rest)) = true := by
    rw [List.isPrefixOf_iff_prefix]
    exact List.prefix_append ('&' :: name) rest
  simp only [readEntity, substitute, he, List.cons_append, substituteFrom, hp, ne_eq, reduceCtorEq,
    not_false_eq_true, and_self, ↓reduceIte, List.length_cons, Nat.add_sub_cancel, List.nil_append]
  rw [substituteFrom_skip, List.drop_left]

theorem readEntity_of_ne {c : Char} (hc : c ≠ '&') (rest : List Char) :
    readEntity e (c :: rest) = c :: readEntity e rest := by
  have hp : ('&' :: name).isPrefixOf (c :: rest) = false := by simp [List.isPrefixOf, hc.symm]
  simp [readEntity, substitute, he, substituteFrom, hp]

theorem readEntity_of_no_name {rest : List Char} (hr : ¬ name <+: rest) :
    readEntity e ('&' :: rest) = '&' :: readEntity e rest := by
  have hp : ('&' :: name).isPrefixOf ('&' :: rest) = false := by
    rw [Bool.eq_false_iff, ne_eq, List.isPrefixOf_iff_prefix, List.cons_prefix_cons]
    exact fun h ↦ hr h.2
  simp [readEntity, substitute, he, substituteFrom, hp]

/-- Reading an entity brings about no beginning that was not there before, short of its
character. -/
theorem prefix_of_prefix_readEntity {word : List Char} (hamp : '&' ∉ word) (hchar : e.char ∉ word)
    {text : List Char} (h : word <+: readEntity e text) : word <+: text := by
  induction word generalizing text with
  | nil => exact List.nil_prefix
  | cons x word ih =>
    simp only [List.mem_cons, not_or] at hamp hchar
    cases text with
    | nil => exact h
    | cons c rest =>
      by_cases hc : c = '&'
      · subst hc
        exfalso
        by_cases hr : name <+: rest
        · obtain ⟨after, rfl⟩ := hr
          rw [← List.cons_append, readEntity_name he, List.cons_prefix_cons] at h
          exact hchar.1 h.1.symm
        · rw [readEntity_of_no_name he hr, List.cons_prefix_cons] at h
          exact hamp.1 h.1.symm
      · rw [readEntity_of_ne he hc, List.cons_prefix_cons] at h
        exact List.cons_prefix_cons.mpr ⟨h.1, ih hamp.2 hchar.2 h.2⟩

end readEntity

/-- Reading the entities one after the other, the ampersand last, never reads what it wrote. -/
theorem unescapeList_eq_decode (text : List Char) : unescapeList text = decode text := by
  let amp : Entity := ⟨'&', ['&', 'a', 'm', 'p', ';']⟩
  let lt : Entity := ⟨'<', ['&', 'l', 't', ';']⟩
  let gt : Entity := ⟨'>', ['&', 'g', 't', ';']⟩
  have hamp : amp.name = '&' :: ['a', 'm', 'p', ';'] := rfl
  have hlt : lt.name = '&' :: ['l', 't', ';'] := rfl
  have hgt : gt.name = '&' :: ['g', 't', ';'] := rfl
  change readEntity amp (readEntity lt (readEntity gt text)) = decode text
  fun_induction decode text with
  | case1 rest ih =>
    rw [readEntity_of_no_name hgt (by simp), readEntity_of_ne hgt (by decide),
      readEntity_of_ne hgt (by decide), readEntity_of_ne hgt (by decide),
      readEntity_of_ne hgt (by decide), readEntity_of_no_name hlt (by simp),
      readEntity_of_ne hlt (by decide), readEntity_of_ne hlt (by decide),
      readEntity_of_ne hlt (by decide), readEntity_of_ne hlt (by decide)]
    exact (readEntity_name hamp _).trans (congrArg _ ih)
  | case2 rest ih =>
    rw [readEntity_of_no_name hgt (by simp), readEntity_of_ne hgt (by decide),
      readEntity_of_ne hgt (by decide), readEntity_of_ne hgt (by decide)]
    have hread := readEntity_name hlt (readEntity gt rest)
    simp only [List.cons_append, List.nil_append] at hread
    rw [hread]
    exact (readEntity_of_ne hamp (by decide) _).trans (congrArg _ ih)
  | case3 rest ih =>
    have hread := readEntity_name hgt rest
    simp only [List.cons_append, List.nil_append] at hread
    rw [hread]
    exact (congrArg _ (readEntity_of_ne hlt (by decide) _)).trans
      ((readEntity_of_ne hamp (by decide) _).trans (congrArg _ ih))
  | case4 c rest h₁ h₂ h₃ ih =>
    by_cases hc : c = '&'
    · subst hc
      -- no entity begins here, and reading the others before it has not made one
      have ngt : ¬ ['g', 't', ';'] <+: rest := fun ⟨after, h⟩ ↦ h₃ after rfl h.symm
      have nlt : ¬ ['l', 't', ';'] <+: readEntity gt rest := fun h ↦
        have ⟨after, h⟩ := prefix_of_prefix_readEntity hgt (by decide) (by decide) h
        h₂ after rfl h.symm
      have namp : ¬ ['a', 'm', 'p', ';'] <+: readEntity lt (readEntity gt rest) := fun h ↦
        have ⟨after, h⟩ := prefix_of_prefix_readEntity hgt (by decide) (by decide)
          (prefix_of_prefix_readEntity hlt (by decide) (by decide) h)
        h₁ after rfl h.symm
      rw [readEntity_of_no_name hgt ngt, readEntity_of_no_name hlt nlt,
        readEntity_of_no_name hamp namp, ih]
    · rw [readEntity_of_ne hgt hc, readEntity_of_ne hlt hc, readEntity_of_ne hamp hc, ih]
  | case5 => rfl

theorem decode_escapeChar (c : Char) (text : List Char) :
    decode (escapeChar c ++ text) = c :: decode text := by
  rw [escapeChar_eq]
  by_cases hamp : c = '&'
  · simp [hamp, decode]
  by_cases hlt : c = '<'
  · simp [hlt, decode]
  by_cases hgt : c = '>'
  · simp [hgt, decode]
  · rw [if_neg hamp, if_neg hlt, if_neg hgt, List.singleton_append, decode]
    all_goals simp [hamp]

theorem decode_escapeList_append (text rest : List Char) :
    decode (escapeList text ++ rest) = text ++ decode rest := by
  induction text with
  | nil => rfl
  | cons c text ih =>
    rw [escapeList_cons, List.append_assoc, decode_escapeChar, ih, List.cons_append]

theorem unescapeList_escapeList (text : List Char) : unescapeList (escapeList text) = text := by
  simpa [unescapeList_eq_decode, decode] using decode_escapeList_append text []

theorem unescape_escape (text : String) : unescape (escape text) = text := by
  simp [unescape, escape, unescapeList_escapeList]

end ScriptSpans.Markup
