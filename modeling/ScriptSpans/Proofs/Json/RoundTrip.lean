import ScriptSpans.Proofs.Json.Scalar
import Mathlib.Tactic.ByContra

namespace ScriptSpans.Json

/-- The values that are read back as they were: the integers in them are not too long. -/
inductive Value.Exact : Value → Prop
  | null : Exact .null
  | boolean (b : Bool) : Exact (.boolean b)
  | integer {n : Int} (short : n.natAbs < 10 ^ integerDigitLimit) : Exact (.integer n)
  | string (s : String) : Exact (.string s)
  | array {items : List Value} (exact : ∀ item ∈ items, Exact item) : Exact (.array items)
  | object {members : List (String × Value)} (exact : ∀ member ∈ members, Exact member.2) :
      Exact (.object members)

def byName {α : Type} (a b : String × α) : Bool := decide (a.1 ≤ b.1)

mutual

def Value.sorted : Value → Value
  | .array items => .array (sortedItems items)
  | .object members => .object ((sortedMembers members).mergeSort byName)
  | value => value
termination_by structural value => value

def sortedItems : List Value → List Value
  | [] => []
  | item :: items => item.sorted :: sortedItems items
termination_by structural items => items

def sortedMembers : List (String × Value) → List (String × Value)
  | [] => []
  | (name, value) :: members => (name, value.sorted) :: sortedMembers members
termination_by structural members => members

end

theorem sortedItems_eq_map (items : List Value) : sortedItems items = items.map Value.sorted := by
  induction items with
  | nil => rfl
  | cons item items ih => rw [sortedItems, ih, List.map_cons]

theorem sortedMembers_eq_map (members : List (String × Value)) :
    sortedMembers members = members.map (fun member ↦ (member.1, member.2.sorted)) := by
  induction members with
  | nil => rfl
  | cons member members ih => rw [sortedMembers, ih, List.map_cons]

theorem mergeSort_map {α β : Type} (f : String × α → β) (members : List (String × α)) :
    (members.map (fun member ↦ (member.1, f member))).mergeSort byName =
      (members.mergeSort byName).map (fun member ↦ (member.1, f member)) := by
  refine (List.map_mergeSort (r := byName) (s := byName) ?_).symm
  intro a _ b _
  rfl

theorem writeItems_eq_map (layout : Layout) (depth : Nat) (items : List Value) :
    writeItems layout depth items = items.map (writeAt layout depth) := by
  induction items with
  | nil => rfl
  | cons item items ih => rw [writeItems, ih, List.map_cons]

def writeMember (layout : Layout) (depth : Nat) (member : String × Value) : List Char :=
  writeString member.1 ++ ':' :: ' ' :: writeAt layout depth member.2

theorem writeMembers_eq_map (layout : Layout) (depth : Nat) (members : List (String × Value)) :
    writeMembers layout depth members =
      members.map (fun member ↦ (member.1, writeMember layout depth member)) := by
  induction members with
  | nil => rfl
  | cons member members ih => rw [writeMembers, ih, List.map_cons, writeMember]; simp

theorem writeAt_array (layout : Layout) (depth : Nat) (items : List Value) :
    writeAt layout depth (.array items) =
      layout.enclose depth '[' ']' (items.map (writeAt layout (depth + 1))) := by
  rw [writeAt, writeItems_eq_map]

theorem writeAt_object (layout : Layout) (depth : Nat) (members : List (String × Value)) :
    writeAt layout depth (.object members) =
      layout.enclose depth '\x7b' '\x7d'
        ((members.mergeSort byName).map (writeMember layout (depth + 1))) := by
  have hsort := mergeSort_map (writeMember layout (depth + 1)) members
  rw [writeAt, writeMembers_eq_map]
  refine congrArg (layout.enclose depth '\x7b' '\x7d') ?_
  refine (congrArg (List.map Prod.snd) hsort).trans ?_
  rw [List.map_map]
  rfl

def startsValue (c : Char) : Bool :=
  ['n', 't', 'f', '-', '\x22', '[', '\x7b'].contains c || c.isDigit

theorem not_isSpace_of_startsValue {c : Char} (h : startsValue c) : isSpace c = false := by
  by_contra hspace
  simp only [isSpace, Bool.not_eq_false, Bool.or_eq_true, decide_eq_true_eq] at hspace
  rcases hspace with ((rfl | rfl) | rfl) | rfl <;> exact absurd h (by decide)

theorem ne_of_startsValue {c d : Char} (h : startsValue c)
    (hd : startsValue d = false) : c ≠ d := by
  rintro rfl
  rw [h] at hd
  cases hd

theorem writeAt_eq_cons (layout : Layout) (depth : Nat) {v : Value} (h : v.Exact) :
    ∃ c more, writeAt layout depth v = c :: more ∧ startsValue c := by
  cases h with
  | null => exact ⟨_, _, rfl, rfl⟩
  | boolean b => cases b <;> exact ⟨_, _, rfl, rfl⟩
  | @integer n short =>
    obtain ⟨c, more, hcons, hc⟩ := toString_eq_cons n
    refine ⟨c, more, hcons, ?_⟩
    rcases hc with hc | rfl
    · simp [startsValue, hc]
    · rfl
  | string s => exact ⟨_, _, rfl, rfl⟩
  | array exact =>
    rw [writeAt_array, Layout.enclose]
    split <;> exact ⟨_, _, rfl, rfl⟩
  | object exact =>
    rw [writeAt_object, Layout.enclose]
    split <;> exact ⟨_, _, rfl, rfl⟩

theorem skipSpace_of_not {text : List Char} (h : text.head?.any isSpace = false) :
    skipSpace text = text := by
  cases text with
  | nil => rfl
  | cons c rest => exact List.dropWhile_cons_of_neg (by simpa using h)

theorem skipSpace_append {blanks : List Char} (h : ∀ c ∈ blanks, isSpace c) (text : List Char) :
    skipSpace (blanks ++ text) = skipSpace text :=
  List.dropWhile_append_of_pos h

theorem isSpace_of_mem_newline (layout : Layout) (depth : Nat) :
    ∀ c ∈ layout.newline depth, isSpace c := by
  intro c hc
  cases layout with
  | none => cases hc
  | some width =>
    rcases List.mem_cons.mp hc with rfl | hc
    · rfl
    · rw [List.eq_of_mem_replicate hc]
      rfl

theorem separator_eq_cons (layout : Layout) (depth : Nat) :
    ∃ blanks, layout.separator depth = ',' :: blanks ∧ ∀ c ∈ blanks, isSpace c := by
  cases layout with
  | none => exact ⟨[' '], rfl, by simp [isSpace]⟩
  | some width => exact ⟨_, rfl, isSpace_of_mem_newline _ _⟩

/-- At this depth the value is read back, if the bound is large enough and no number goes on after
it. -/
def Reads (layout : Layout) (depth : Nat) (v : Value) : Prop :=
  ∀ {fuel : Nat} {rest : List Char}, 2 * (writeAt layout depth v).length ≤ fuel →
    rest.head?.any continuesNumber = false →
      readValue fuel (writeAt layout depth v ++ rest) = .ok (v.sorted, rest)

/-- The text of a value has characters, so that reading it takes one call at least. -/
theorem reads_of_succ {layout : Layout} {depth : Nat} {v : Value} (hexact : v.Exact)
    (h : ∀ {fuel : Nat} {rest : List Char}, 2 * (writeAt layout depth v).length ≤ fuel + 1 →
      rest.head?.any continuesNumber = false →
      readValue (fuel + 1) (writeAt layout depth v ++ rest) = .ok (v.sorted, rest)) : Reads
        layout depth v := by
  intro fuel rest hfuel hrest
  obtain ⟨c, more, hcons, -⟩ := writeAt_eq_cons layout depth hexact
  cases fuel with
  | zero =>
    rw [hcons, List.length_cons] at hfuel
    omega
  | succ fuel => exact h hfuel hrest

theorem readValue_scalar {c : Char} (hquote : c ≠ '\x22') (hbracket : c ≠ '[') (hbrace : c ≠ '\x7b')
    (fuel : Nat) (text : List Char) : readValue (fuel + 1)
    (c :: text) = readScalar (c :: text) := by
  simp [readValue, hquote, hbracket, hbrace]

theorem not_continuesNumber_closing {blanks : List Char} (h : ∀ c ∈ blanks, isSpace c)
    {close : Char} (hclose : continuesNumber close = false) (rest : List Char) :
    (blanks ++ close :: rest).head?.any continuesNumber = false := by
  cases blanks with
  | nil => exact hclose
  | cons c blanks =>
    have hc := h c List.mem_cons_self
    simp only [isSpace, Bool.or_eq_true, decide_eq_true_eq] at hc
    rcases hc with ((rfl | rfl) | rfl) | rfl <;> rfl

theorem skipSpace_intercalate {blanks : List Char} (hblanks : ∀ c ∈ blanks, isSpace c) {c : Char}
    (hc : isSpace c = false) (separator more : List Char) (texts : List (List Char))
    (rest : List Char) :
    skipSpace (blanks ++ (separator.intercalate ((c :: more) :: texts) ++ rest)) =
      separator.intercalate ((c :: more) :: texts) ++ rest := by
  rw [skipSpace_append hblanks, skipSpace_of_not]
  rw [List.intercalate_cons_cons_left]
  simpa using hc

theorem readItems_last {fuel : Nat} {text rest after : List Char} {item : Value}
    (hitem : readValue fuel text = .ok (item, rest)) (hrest : skipSpace rest = ']' :: after) :
    readItems (fuel + 1) text = .ok ([item], after) := by
  rw [readItems, hitem]
  simp only [hrest]

theorem readItems_comma {fuel : Nat} {text after rest : List Char} {item : Value}
    {items : List Value} (hitem : readValue fuel text = .ok (item, ',' :: after))
    (hitems : readItems fuel (skipSpace after) = .ok (items, rest)) :
    readItems (fuel + 1) text = .ok (item :: items, rest) := by
  have hcomma : skipSpace (',' :: after) = ',' :: after := skipSpace_of_not rfl
  rw [readItems, hitem]
  simp only [hcomma, hitems]
  rfl

theorem readItems_write {layout : Layout} {depth : Nat} {items : List Value} (hne : items ≠ [])
    (hexact : ∀ item ∈ items, item.Exact) (hreads : ∀ item ∈ items, Reads layout depth item)
    {blanks : List Char} (hblanks : ∀ c ∈ blanks, isSpace c) (rest : List Char) (fuel : Nat)
    (hfuel : 2 * ((layout.separator depth).intercalate (items.map (writeAt layout depth))).length +
      1 ≤ fuel) :
    readItems fuel ((layout.separator depth).intercalate (items.map (writeAt layout depth)) ++
      (blanks ++ ']' :: rest)) = .ok (items.map Value.sorted, rest) := by
  induction items generalizing fuel with
  | nil => exact absurd rfl hne
  | cons item items ih =>
    obtain ⟨fuel, rfl⟩ : ∃ f, fuel = f + 1 := ⟨fuel - 1, by omega⟩
    obtain ⟨hitem, hitems⟩ := List.forall_mem_cons.mp hreads
    cases items with
    | nil =>
      simp only [List.map_cons, List.map_nil, List.intercalate_singleton] at hfuel ⊢
      refine readItems_last (hitem (by omega) (not_continuesNumber_closing hblanks rfl rest)) ?_
      rw [skipSpace_append hblanks]
      rfl
    | cons next items =>
      obtain ⟨separator, hseparator, hspaces⟩ := separator_eq_cons layout depth
      obtain ⟨c, more, hcons, hc⟩ := writeAt_eq_cons layout depth (hexact next (by simp))
      have hskip :=
        skipSpace_intercalate hspaces (not_isSpace_of_startsValue hc) (layout.separator depth) more
        (items.map (writeAt layout depth)) (blanks ++ ']' :: rest)
      have hlater := ih (by simp) (List.forall_mem_cons.mp hexact).2 hitems fuel
      simp only [List.map_cons, ← hcons, List.intercalate_cons_cons, List.length_append,
        List.append_assoc]
        at hfuel hlater hskip ⊢
      generalize (layout.separator depth).intercalate
        (writeAt layout depth next :: items.map (writeAt layout depth))
        ++ (blanks ++ ']' :: rest) = after at hlater hskip ⊢
      have hcomma : (layout.separator depth).length = separator.length + 1 := by
        rw [hseparator, List.length_cons]
      have hread : readValue fuel (writeAt layout depth item ++ (layout.separator depth ++ after)) =
        .ok (item.sorted, layout.separator depth ++ after) :=
          hitem (by omega) (by rw [hseparator]; rfl)
      rw [hseparator, List.cons_append] at hread ⊢
      refine readItems_comma hread ?_
      rw [hskip]
      exact hlater (by omega)

theorem readMembers_name {fuel : Nat} {name : String} {text rest : List Char} {value : Value}
    {outcome : Reading (List (String × Value))} (hspace : text.head?.any isSpace = false)
    (hvalue : readValue fuel text = .ok (value, rest))
    (houtcome : (match skipSpace rest with
      | '\x7d' :: after => .ok ([(name, value)], after)
      | ',' :: after =>
        (readMembers fuel (skipSpace after)).map
          (fun (members, rest) ↦ ((name, value) :: members, rest))
      | other => .error (.flaw .noComma other)) = outcome) :
    readMembers (fuel + 1) (writeString name ++ ':' :: ' ' :: text) = outcome := by
  obtain ⟨inside, hinside, hread⟩ := readString_writeString name (':' :: ' ' :: text)
  have hcolon : skipSpace (':' :: ' ' :: text) = ':' :: ' ' :: text := skipSpace_of_not rfl
  have hblank : skipSpace (' ' :: text) = text :=
    (List.dropWhile_cons_of_pos rfl).trans (skipSpace_of_not hspace)
  rw [hinside, readMembers, hread]
  simp only [hcolon, hblank, hvalue]
  exact houtcome

theorem readMembers_last {fuel : Nat} {name : String} {text rest after : List Char} {value : Value}
    (hspace : text.head?.any isSpace = false) (hvalue : readValue fuel text = .ok (value, rest))
    (hrest : skipSpace rest = '\x7d' :: after) :
    readMembers (fuel + 1) (writeString name ++ ':' :: ' ' :: text) =
      .ok ([(name, value)], after) := by
  refine readMembers_name hspace hvalue ?_
  simp only [hrest]

theorem readMembers_comma {fuel : Nat} {name : String} {text after rest : List Char} {value : Value}
    {members : List (String × Value)} (hspace : text.head?.any isSpace = false)
    (hvalue : readValue fuel text = .ok (value, ',' :: after))
    (hmembers : readMembers fuel (skipSpace after) = .ok (members, rest)) :
    readMembers (fuel + 1) (writeString name ++ ':' :: ' ' :: text) =
      .ok ((name, value) :: members, rest) := by
  have hcomma : skipSpace (',' :: after) = ',' :: after := skipSpace_of_not rfl
  refine readMembers_name hspace hvalue ?_
  simp only [hcomma, hmembers]
  rfl

theorem length_writeMember (layout : Layout) (depth : Nat) (member : String × Value) :
    (writeAt layout depth member.2).length + 2 ≤ (writeMember layout depth member).length := by
  simp only [writeMember, List.length_append, List.length_cons]
  omega

theorem writeMember_eq_cons (layout : Layout) (depth : Nat) (member : String × Value) :
    ∃ more, writeMember layout depth member = '\x22' :: more := ⟨_, rfl⟩

theorem readMembers_write {layout : Layout} {depth : Nat} {members : List (String × Value)}
    (hne : members ≠ []) (hexact : ∀ member ∈ members, member.2.Exact)
    (hreads : ∀ member ∈ members, Reads layout depth member.2) {blanks : List Char}
    (hblanks : ∀ c ∈ blanks, isSpace c) (rest : List Char) (fuel : Nat)
    (hfuel : 2 * ((layout.separator depth).intercalate
      (members.map (writeMember layout depth))).length + 1 ≤ fuel) :
    readMembers fuel ((layout.separator depth).intercalate
      (members.map (writeMember layout depth)) ++
      (blanks ++ '\x7d' :: rest)) =
        .ok (members.map (fun member ↦ (member.1, member.2.sorted)), rest) := by
  induction members generalizing fuel with
  | nil => exact absurd rfl hne
  | cons member members ih =>
    obtain ⟨fuel, rfl⟩ : ∃ f, fuel = f + 1 := ⟨fuel - 1, by omega⟩
    obtain ⟨hmember, hmembers⟩ := List.forall_mem_cons.mp hreads
    obtain ⟨hexactMember, hexactMembers⟩ := List.forall_mem_cons.mp hexact
    obtain ⟨c, more, hcons, hc⟩ := writeAt_eq_cons layout depth hexactMember
    have hspace : ∀ text, (writeAt layout depth member.2 ++ text).head?.any isSpace = false := by
      intro text
      rw [hcons]
      exact not_isSpace_of_startsValue hc
    have hlength := length_writeMember layout depth member
    cases members with
    | nil =>
      simp only [List.map_cons, List.map_nil, List.intercalate_singleton] at hfuel ⊢
      rw [writeMember, List.append_assoc]
      refine readMembers_last (hspace _)
        (hmember (by omega) (not_continuesNumber_closing hblanks rfl rest)) ?_
      rw [skipSpace_append hblanks]
      rfl
    | cons next members =>
      obtain ⟨separator, hseparator, hspaces⟩ := separator_eq_cons layout depth
      obtain ⟨more, hnext⟩ := writeMember_eq_cons layout depth next
      have hskip := skipSpace_intercalate hspaces (c := '\x22') rfl (layout.separator depth) more
        (members.map (writeMember layout depth)) (blanks ++ '\x7d' :: rest)
      have hlater := ih (by simp) hexactMembers hmembers fuel
      simp only [List.map_cons, ← hnext, List.intercalate_cons_cons, List.length_append,
        List.append_assoc]
        at hfuel hlater hskip ⊢
      generalize (layout.separator depth).intercalate
          (writeMember layout depth next :: members.map (writeMember layout depth))
        ++ (blanks ++ '\x7d' :: rest) = after at hlater hskip ⊢
      have hcomma : (layout.separator depth).length = separator.length + 1 := by
        rw [hseparator, List.length_cons]
      have hread :
          readValue fuel (writeAt layout depth member.2 ++ (layout.separator depth ++ after)) =
        .ok (member.2.sorted, layout.separator depth ++ after) :=
          hmember (by omega) (by rw [hseparator]; rfl)
      rw [hseparator, List.cons_append] at hread ⊢
      rw [writeMember, List.append_assoc]
      refine readMembers_comma (hspace _) hread ?_
      rw [hskip]
      exact hlater (by omega)

theorem readValue_items {fuel : Nat} {text inside rest : List Char} {items : List Value}
    (hinside : skipSpace text = inside) (hne : inside.head? ≠ some ']')
    (hitems : readItems fuel inside = .ok (items, rest)) :
    readValue (fuel + 1) ('[' :: text) = .ok (.array items, rest) := by
  simp only [readValue, hinside]
  split
  · exact absurd rfl hne
  · rw [hitems]
    rfl

theorem readValue_members {fuel : Nat} {text inside rest : List Char}
    {members : List (String × Value)} (hinside : skipSpace text = inside)
    (hne : inside.head? ≠ some '\x7d') (hmembers : readMembers fuel inside = .ok (members, rest)) :
    readValue (fuel + 1) ('\x7b' :: text) = .ok (.object members, rest) := by
  simp only [readValue, hinside]
  split
  · exact absurd rfl hne
  · rw [hmembers]
    rfl

theorem enclose_append {texts : List (List Char)} (hne : texts ≠ []) (layout : Layout) (depth : Nat)
    (left right : Char) (rest : List Char) :
    layout.enclose depth left right texts ++ rest =
      left :: (layout.newline (depth + 1) ++ ((layout.separator (depth + 1)).intercalate texts ++
        (layout.newline depth ++ right :: rest))) := by
  rw [Layout.enclose, if_neg (by simpa using hne)]
  simp

theorem length_enclose {texts : List (List Char)} (hne : texts ≠ []) (layout : Layout) (depth : Nat)
    (left right : Char) :
    ((layout.separator (depth + 1)).intercalate texts).length + 2 ≤
      (layout.enclose depth left right texts).length := by
  rw [Layout.enclose, if_neg (by simpa using hne)]
  simp only [List.length_append, List.length_cons]
  omega

theorem reads_array {layout : Layout} {depth : Nat} {items : List Value}
    (hexact : ∀ item ∈ items, item.Exact) (hreads : ∀ item ∈ items, Reads layout (depth + 1) item) :
    Reads layout depth (.array items) := by
  refine reads_of_succ (.array hexact) ?_
  intro fuel rest hfuel _
  rw [Value.sorted, sortedItems_eq_map]
  rw [writeAt_array] at hfuel ⊢
  cases items with
  | nil => rfl
  | cons item items =>
    obtain ⟨c, more, hcons, hc⟩ :=
      writeAt_eq_cons layout (depth + 1) (hexact item List.mem_cons_self)
    have htexts : (item :: items).map (writeAt layout (depth + 1)) ≠ [] := by simp
    have hlength := length_enclose htexts layout depth '[' ']'
    have hskip := skipSpace_intercalate (isSpace_of_mem_newline layout (depth + 1))
      (not_isSpace_of_startsValue hc) (layout.separator (depth + 1)) more
      (items.map (writeAt layout (depth + 1))) (layout.newline depth ++ ']' :: rest)
    rw [← hcons, ← List.map_cons] at hskip
    rw [enclose_append htexts]
    refine readValue_items hskip ?_
      (readItems_write (by simp) hexact hreads (isSpace_of_mem_newline layout depth) rest
        fuel (by omega))
    rw [List.map_cons, hcons, List.intercalate_cons_cons_left, List.cons_append,
      List.head?_cons, ne_eq, Option.some.injEq]
    exact ne_of_startsValue hc rfl

theorem reads_object {layout : Layout} {depth : Nat} {members : List (String × Value)}
    (hexact : ∀ member ∈ members, member.2.Exact)
    (hreads : ∀ member ∈ members, Reads layout (depth + 1) member.2) :
    Reads layout depth (.object members) := by
  refine reads_of_succ (.object hexact) ?_
  intro fuel rest hfuel _
  have hmem : ∀ member ∈ members.mergeSort byName, member ∈ members := fun _ ↦ List.mem_mergeSort.mp
  have hsorted : (Value.object members).sorted =
      .object ((members.mergeSort byName).map (fun member ↦ (member.1, member.2.sorted))) := by
    rw [Value.sorted, sortedMembers_eq_map]
    exact congrArg Value.object (mergeSort_map
      (fun member : String × Value ↦ member.2.sorted) members)
  rw [hsorted]
  rw [writeAt_object] at hfuel ⊢
  generalize members.mergeSort byName = ordered at hfuel hmem ⊢
  cases ordered with
  | nil => rfl
  | cons member ordered =>
    obtain ⟨more, hcons⟩ := writeMember_eq_cons layout (depth + 1) member
    have htexts : (member :: ordered).map (writeMember layout (depth + 1)) ≠ [] := by simp
    have hlength := length_enclose htexts layout depth '\x7b' '\x7d'
    have hskip := skipSpace_intercalate (isSpace_of_mem_newline layout (depth + 1))
      (c := '\x22') rfl (layout.separator (depth + 1)) more
      (ordered.map (writeMember layout (depth + 1))) (layout.newline depth ++ '\x7d' :: rest)
    rw [← hcons, ← List.map_cons] at hskip
    rw [enclose_append htexts]
    refine readValue_members hskip ?_
      (readMembers_write (by simp) (fun m hm ↦ hexact m (hmem m hm))
        (fun m hm ↦ hreads m (hmem m hm))
        (isSpace_of_mem_newline layout depth) rest fuel (by omega))
    rw [List.map_cons, hcons, List.intercalate_cons_cons_left, List.cons_append, List.head?_cons]
    simp

theorem Value.Exact.reads {v : Value} (h : v.Exact) (layout : Layout) (depth : Nat) :
    Reads layout depth v := by
  induction h generalizing depth with
  | null =>
    refine reads_of_succ .null ?_
    intro fuel rest _ _
    exact readValue_scalar (by decide) (by decide) (by decide) fuel _
  | boolean b =>
    refine reads_of_succ (.boolean b) ?_
    intro fuel rest _ _
    cases b <;> exact readValue_scalar (by decide) (by decide) (by decide) fuel _
  | @integer n short =>
    refine reads_of_succ (.integer short) ?_
    intro fuel rest _ hrest
    obtain ⟨c, more, hcons, hc⟩ := toString_eq_cons n
    have hne : ∀ d, d.isDigit = false → d ≠ '-' → c ≠ d := by
      rintro d hd hminus rfl
      exact hc.elim (fun hdigit ↦ by rw [hdigit] at hd; cases hd) hminus
    rw [writeAt, hcons, List.cons_append,
      readValue_scalar (hne _ rfl (by decide)) (hne _ rfl (by decide))
      (hne _ rfl (by decide)), ← List.cons_append, ← hcons]
    exact readScalar_integer hrest short
  | string s =>
    refine reads_of_succ (.string s) ?_
    intro fuel rest _ _
    obtain ⟨inside, hinside, hread⟩ := readString_writeString s rest
    rw [writeAt, hinside, readValue, hread]
    rfl
  | array exact ih => exact reads_array exact (fun item hitem ↦ ih item hitem (depth + 1))
  | object exact ih => exact reads_object exact (fun member hmember ↦ ih member hmember (depth + 1))

theorem readText_writeAt {v : Value} (h : v.Exact) (layout : Layout) :
    readText (writeAt layout 0 v) = .ok v.sorted := by
  obtain ⟨c, more, hcons, hc⟩ := writeAt_eq_cons layout 0 h
  have hread : readValue (2 * (writeAt layout 0 v).length + 1) (writeAt layout 0 v ++ []) =
      .ok (v.sorted, []) :=
    h.reads layout 0 (Nat.le_succ _) rfl
  have hskip : skipSpace (writeAt layout 0 v) = writeAt layout 0 v := by
    rw [hcons]
    exact skipSpace_of_not (not_isSpace_of_startsValue hc)
  have hmark : (writeAt layout 0 v).head? ≠ some '\ufeff' := by
    rw [hcons, List.head?_cons, ne_eq, Option.some.injEq]
    exact ne_of_startsValue hc rfl
  rw [List.append_nil] at hread
  rw [readText, if_neg hmark, hskip, hread]
  rfl

theorem read_write {v : Value} (h : v.Exact) (layout : Layout) :
    Value.read (v.write layout) = .ok v.sorted := by
  rw [Value.read, Value.write, String.toList_ofList, readText_writeAt h]

end ScriptSpans.Json
