import ScriptSpans.Proofs.Line.Runs

namespace ScriptSpans

open Lexicon

namespace Raw

theorem mem_located {s : Stretch} {position : Nat} {pieces : List Piece} :
    s ∈ Span.located position (pieces.map Piece.span) ↔
      ∃ earlier piece later, pieces = earlier ++ piece :: later ∧
      s = ⟨piece.category, position + (earlier.flatMap Piece.chars).length, piece.chars⟩ := by
  constructor
  · intro h
    induction pieces generalizing position with
    | nil => cases h
    | cons piece pieces ih =>
      rw [located_cons] at h
      rcases List.mem_cons.mp h with rfl | h
      · exact ⟨[], piece, pieces, rfl, rfl⟩
      · obtain ⟨earlier, q, later, rfl, rfl⟩ := ih h
        refine ⟨piece :: earlier, q, later, rfl, ?_⟩
        rw [List.flatMap_cons, List.length_append, Nat.add_assoc]
  · rintro ⟨earlier, piece, later, rfl, rfl⟩
    induction earlier generalizing position with
    | nil =>
      rw [List.nil_append, located_cons]
      exact List.mem_cons_self
    | cons first earlier ih =>
      rw [List.cons_append, located_cons, List.flatMap_cons, List.length_append, ← Nat.add_assoc]
      exact List.mem_cons_of_mem _ ih

theorem mem_located_joinFrom {s : Stretch} (hplain : s.category ≠ .plain) (pieces : List Piece) :
    s ∈ Span.located 0 ((joinFrom [] pieces).map Piece.span) ↔
      s ∈ Span.located 0 (pieces.map Piece.span) := by
  have hfilter := filter_located_joinFrom (q := fun c ↦ c ≠ .plain) (by simp) 0 [] pieces
  have hmem : ∀ stretches : List Stretch, s ∈ stretches.filter (fun s ↦ s.category ≠ .plain) ↔
      s ∈ stretches := by
    intro stretches
    rw [List.mem_filter, decide_eq_true_eq]
    exact and_iff_left hplain
  rw [← hmem, hfilter, hmem]
  rfl

theorem plainPiece_of_ne_nil {gap : List Char} (h : gap ≠ []) :
    plainPiece gap = [⟨.plain, gap⟩] := by
  obtain ⟨c, rest, rfl⟩ := List.exists_cons_of_ne_nil h
  rfl

theorem exists_joinFrom_eq_cons {gap : List Char} (hgap : gap ≠ []) (pieces : List Piece) :
    ∃ right later, joinFrom gap pieces = ⟨.plain, gap ++ right⟩ :: later := by
  induction pieces generalizing gap with
  | nil => exact ⟨[], [], by rw [joinFrom, plainPiece_of_ne_nil hgap, List.append_nil]⟩
  | cons piece pieces ih =>
    rw [joinFrom]
    split
    · obtain ⟨right, later, heq⟩ := ih (List.append_ne_nil_of_left_ne_nil hgap piece.chars)
      exact ⟨piece.chars ++ right, later, by rw [heq, List.append_assoc]⟩
    · refine ⟨[], piece :: joinFrom [] pieces, ?_⟩
      rw [plainPiece_of_ne_nil hgap, List.append_nil, List.singleton_append]

theorem exists_plain_located (position : Nat) (gap : List Char) {chars : List Char}
    (hne : chars ≠ []) (earlier later : List Piece) :
    ∃ start left right, start + left.length =
      position + gap.length + (earlier.flatMap Piece.chars).length ∧
      ⟨.plain, start, left ++ chars ++ right⟩ ∈
        Span.located position ((joinFrom gap (earlier ++ ⟨.plain, chars⟩ :: later)).map
          Piece.span) := by
  induction earlier generalizing position gap with
  | nil =>
    have hgap : gap ++ chars ≠ [] := List.append_ne_nil_of_right_ne_nil _ hne
    obtain ⟨right, pieces, heq⟩ := exists_joinFrom_eq_cons hgap later
    refine ⟨position, gap, right, rfl, ?_⟩
    rw [List.nil_append, joinFrom, if_pos rfl, heq, located_cons]
    exact List.mem_cons_self
  | cons first earlier ih =>
    rw [List.cons_append, joinFrom, List.flatMap_cons, List.length_append]
    split
    · obtain ⟨start, left, right, hstart, hmem⟩ := ih position (gap ++ first.chars)
      rw [List.length_append] at hstart
      exact ⟨start, left, right, by omega, hmem⟩
    · obtain ⟨start, left, right, hstart, hmem⟩ :=
        ih (position + gap.length + first.chars.length) []
      rw [List.length_nil] at hstart
      refine ⟨start, left, right, by omega, ?_⟩
      cases gap with
      | nil =>
        have hnone : plainPiece [] = [] := rfl
        rw [hnone, List.nil_append, located_cons]
        exact List.mem_cons_of_mem _ hmem
      | cons c gap =>
        rw [plainPiece_of_ne_nil (List.cons_ne_nil c gap), List.singleton_append,
          located_cons, located_cons]
        exact List.mem_cons_of_mem _ (List.mem_cons_of_mem _ hmem)

theorem categoryOf_of_isUpper {chars : List Char} (h : chars.head?.any Char.isUpper)
    (after : List Char) :
    categoryOf chars after = if closes after then .plain else .typeName := by
  have hkeyword : isKeyword chars = false := by
    cases kind ⟨0, none, chars, after⟩ with
    | reserved _ _ upper => exact absurd h (by simpa [Word.firstIs] using upper)
    | name keyword | capital keyword | decimal keyword | other keyword => exact keyword
  rw [categoryOf, hkeyword, h]
  rfl

theorem categoryOf_eq_typeName {chars after : List Char} (h : categoryOf chars after = .typeName) :
    chars.head?.any Char.isUpper ∧ closes after = false := by
  rw [categoryOf] at h
  split_ifs at h with _ hupper hcloses
  exact ⟨hupper, by simpa using hcloses⟩

theorem not_isDigit_of_name {chars : List Char} (h : chars.head?.any startsName) :
    chars.head?.any Char.isDigit = false :=
  firstIs_false (w := ⟨0, none, chars, []⟩) h not_isDigit_of_startsName

theorem categoryOf_of_startsName {chars : List Char} (hkeyword : isKeyword chars = false)
    (hname : chars.head?.any startsName) (after : List Char) :
    categoryOf chars after =
      if (after.dropWhile isInlineBlank).head? = some '(' then .functionCall
      else if (after.dropWhile isInlineBlank).head? = some ':' then .propertyKey
      else .plain := by
  have hupper : chars.head?.any Char.isUpper = false :=
    firstIs_false (w := ⟨0, none, chars, []⟩) hname not_isUpper_of_startsName
  rw [categoryOf, hkeyword, hupper, hname]
  rfl

theorem categoryOf_eq_keyword {chars after : List Char} (h : categoryOf chars after = .keyword) :
    isKeyword chars := by
  rw [categoryOf] at h
  split_ifs at h with hkeyword
  exact hkeyword

theorem categoryOf_eq_functionCall {chars after : List Char}
    (h : categoryOf chars after = .functionCall) :
    isKeyword chars = false ∧ chars.head?.any startsName ∧
      (after.dropWhile isInlineBlank).head? = some '(' := by
  rw [categoryOf] at h
  split_ifs at h with hkeyword _ _ hname hcall
  exact ⟨by simpa using hkeyword, hname, hcall⟩

theorem categoryOf_eq_propertyKey {chars after : List Char}
    (h : categoryOf chars after = .propertyKey) :
    isKeyword chars = false ∧ chars.head?.any startsName ∧
      (after.dropWhile isInlineBlank).head? = some ':' := by
  rw [categoryOf] at h
  split_ifs at h with hkeyword _ _ hname _ hkey
  exact ⟨by simpa using hkeyword, hname, hkey⟩

end Raw

section runs

variable {config : Config} {raw : String} (lineno : Int)
  (hlimit : ∀ limit ∈ config.maxLineLength, raw.length ≤ limit) {before chars after : List Char}
include hlimit

theorem Line.mem_located_of_run (hrun : Raw.Run raw.toList before chars after)
    (hdigit : chars.head?.any Char.isDigit = false) (hplain : Raw.categoryOf chars after ≠ .plain) :
    ⟨Raw.categoryOf chars after, before.length, chars⟩ ∈
      Span.located 0 (Line.ofSource config raw lineno).value.spans := by
  obtain ⟨earlier, later, hpieces, rfl⟩ := (Raw.cuts_cut none raw.toList).exists_of_run hrun hdigit
  rw [Raw.spans_of_length_le lineno hlimit, Raw.mem_located_joinFrom hplain, Raw.mem_located]
  exact ⟨earlier, _, later, hpieces, by rw [Nat.zero_add]⟩

theorem Line.mem_located_of_name (hrun : Raw.Run raw.toList before chars after)
    (hname : chars.head?.any startsName) {category : Category}
    (hcategory : Raw.categoryOf chars after = category) (hplain : category ≠ .plain) :
    ⟨category, before.length, chars⟩ ∈ Span.located 0
      (Line.ofSource config raw lineno).value.spans := by
  subst hcategory
  exact Line.mem_located_of_run lineno hlimit hrun (Raw.not_isDigit_of_name hname) hplain

theorem Line.exists_plain_of_run (hrun : Raw.Run raw.toList before chars after)
    (hdigit : chars.head?.any Char.isDigit = false) (hplain : Raw.categoryOf chars after = .plain) :
    ∃ start left right, start + left.length = before.length ∧
      ⟨.plain, start, left ++ chars ++ right⟩ ∈
        Span.located 0 (Line.ofSource config raw lineno).value.spans := by
  obtain ⟨earlier, later, hpieces, rfl⟩ := (Raw.cuts_cut none raw.toList).exists_of_run hrun hdigit
  rw [hplain] at hpieces
  obtain ⟨start, left, right, hstart, hmem⟩ :=
    Raw.exists_plain_located 0 [] hrun.nonempty earlier later
  refine ⟨start, left, right, by simpa using hstart, ?_⟩
  rw [Raw.spans_of_length_le lineno hlimit, hpieces]
  exact hmem

theorem Line.run_of_mem_located {s : Stretch} (hregion : s.category.isRegion = false)
    (hnumber : s.category ≠ .number) (hplain : s.category ≠ .plain)
    (hs : s ∈ Span.located 0 (Line.ofSource config raw lineno).value.spans) :
    ∃ before after, Raw.Run raw.toList before s.chars after ∧ before.length = s.start ∧
      s.category = Raw.categoryOf s.chars after := by
  rw [Raw.spans_of_length_le lineno hlimit, Raw.mem_located_joinFrom hplain, Raw.mem_located] at hs
  obtain ⟨earlier, piece, later, hpieces, rfl⟩ := hs
  have hcuts := Raw.cuts_cut none raw.toList
  rw [hpieces] at hcuts
  obtain ⟨after, hrun, hcategory⟩ := hcuts.run_of_append hregion hnumber hplain
  exact ⟨_, after, hrun, (Nat.zero_add _).symm, hcategory⟩

end runs

/-- A capitalised run of code is a type name if no closing bracket comes after it before an opening
bracket, a literal, the comment or the end of the line, and part of a plain span if one does. There
are no other type names. -/
theorem Line.ofSource_typeNames (config : Config) (raw : String) (lineno : Int)
    (hlimit : ∀ limit ∈ config.maxLineLength, raw.length ≤ limit) :
    let stretches := Span.located 0 (Line.ofSource config raw lineno).value.spans
    (∀ before chars after, Raw.Run raw.toList before chars after → chars.head?.any Char.isUpper →
      (Raw.closes after = false → ⟨.typeName, before.length, chars⟩ ∈ stretches) ∧
        (Raw.closes after → ∃ start left right, start + left.length = before.length ∧
          ⟨.plain, start, left ++ chars ++ right⟩ ∈ stretches)) ∧
      ∀ s ∈ stretches, s.category = .typeName →
        ∃ before after, Raw.Run raw.toList before s.chars after ∧
        before.length = s.start ∧ s.chars.head?.any Char.isUpper ∧ Raw.closes after = false := by
  intro stretches
  constructor
  · intro before chars after hrun hupper
    have hdigit : chars.head?.any Char.isDigit = false :=
      Raw.firstIs_false (w := ⟨0, none, chars, after⟩) hupper Raw.not_isDigit_of_isUpper
    have hcategory := Raw.categoryOf_of_isUpper hupper after
    constructor
    · intro hcloses
      rw [hcloses] at hcategory
      have hmem := Line.mem_located_of_run lineno hlimit hrun hdigit (by simp [hcategory])
      rwa [hcategory] at hmem
    · intro hcloses
      rw [hcloses] at hcategory
      exact Line.exists_plain_of_run lineno hlimit hrun hdigit hcategory
  · intro s hs htype
    have hregion : s.category.isRegion = false := by rw [htype]; rfl
    obtain ⟨before, after, hrun, hstart, hcategory⟩ :=
      Line.run_of_mem_located lineno hlimit hregion (by simp [htype]) (by simp [htype]) hs
    obtain ⟨hupper, hcloses⟩ := Raw.categoryOf_eq_typeName (hcategory.symm.trans htype)
    exact ⟨before, after, hrun, hstart, hupper, hcloses⟩

/-- A closing bracket in a string and one in the comment close nothing; the one after the next name
does. -/
theorem Line.ofSource_typeNames_bracketed :
    let raw := "Map<Key, '>' List> x // T>"
    let stretches := Span.located 0 (Line.ofSource { maxLineLength := some 80 } raw 1).value.spans
    (∀ limit ∈ (some 80 : Option Nat), raw.length ≤ limit) ∧
      Raw.Run raw.toList "Map<".toList "Key".toList ", '>' List> x // T>".toList ∧
      Raw.Run raw.toList "Map<Key, '>' ".toList "List".toList "> x // T>".toList ∧
      ⟨.typeName, 4, "Key".toList⟩ ∈ stretches ∧
      (∃ start left right, start + left.length = 13 ∧
        ⟨.plain, start, left ++ "List".toList ++ right⟩ ∈ stretches) ∧
      ∀ s ∈ stretches, s.category = .typeName → s.start ≠ 24 := by
  intro raw stretches
  have hlimit : ∀ limit ∈ (some 80 : Option Nat), raw.length ≤ limit := by
    intro limit h
    cases h
    decide
  have hkey : Raw.Run raw.toList "Map<".toList "Key".toList ", '>' List> x // T>".toList :=
    ⟨by decide, by decide, by decide, by simp [isIdentifierChar], by decide, by decide⟩
  have hlist : Raw.Run raw.toList "Map<Key, '>' ".toList "List".toList "> x // T>".toList :=
    ⟨by decide, by decide, by decide, by simp [isIdentifierChar], by decide, by decide⟩
  obtain ⟨hruns, hnames⟩ := Line.ofSource_typeNames { maxLineLength := some 80 } raw 1 hlimit
  refine ⟨hlimit, hkey, hlist, ?_, ?_, ?_⟩
  · exact (hruns _ _ _ hkey (by decide)).1 (by decide)
  · exact (hruns _ _ _ hlist (by decide)).2 (by decide)
  · intro s hs htype hstart
    -- the scan is in the comment there
    obtain ⟨before, after, hrun, hlength, -⟩ := hnames s hs htype
    exact absurd (hrun.after_take (hlength.trans hstart)) (by decide)

/-- A reserved run of code is a keyword, whatever follows it. Any other run that begins like a name
is a call if the first character behind it that is no blank is a round bracket, a key if it is a
colon, and else part of a plain span. There are no other keywords, calls and keys. -/
theorem Line.ofSource_names (config : Config) (raw : String) (lineno : Int)
    (hlimit : ∀ limit ∈ config.maxLineLength, raw.length ≤ limit) :
    let stretches := Span.located 0 (Line.ofSource config raw lineno).value.spans
    let follower := fun after : List Char ↦ (after.dropWhile isInlineBlank).head?
    (∀ before chars after, Raw.Run raw.toList before chars after →
      (isKeyword chars → ⟨.keyword, before.length, chars⟩ ∈ stretches) ∧
        (isKeyword chars = false → chars.head?.any startsName →
          (follower after = some '(' → ⟨.functionCall, before.length, chars⟩ ∈ stretches) ∧
          (follower after = some ':' → ⟨.propertyKey, before.length, chars⟩ ∈ stretches) ∧
          (follower after ≠ some '(' → follower after ≠ some ':' →
            ∃ start left right, start + left.length = before.length ∧
              ⟨.plain, start, left ++ chars ++ right⟩ ∈ stretches))) ∧
      ∀ s ∈ stretches, s.category = .keyword ∨
        s.category = .functionCall ∨ s.category = .propertyKey →
        ∃ before after, Raw.Run raw.toList before s.chars after ∧ before.length = s.start ∧
          (s.category = .keyword ∧ isKeyword s.chars ∨
            isKeyword s.chars = false ∧ s.chars.head?.any startsName ∧
              (s.category = .functionCall ∧ follower after = some '(' ∨
                s.category = .propertyKey ∧ follower after = some ':')) := by
  intro stretches follower
  constructor
  · intro before chars after hrun
    constructor
    · intro hkeyword
      have hname := Raw.startsName_of_isKeyword (w := ⟨0, none, chars, after⟩) hkeyword
      exact Line.mem_located_of_name lineno hlimit hrun hname (if_pos hkeyword) (by simp)
    · intro hkeyword hname
      have hcategory := Raw.categoryOf_of_startsName hkeyword hname after
      refine ⟨fun hcall ↦ ?_, fun hkey ↦ ?_, fun hcall hkey ↦ ?_⟩
      · rw [if_pos hcall] at hcategory
        exact Line.mem_located_of_name lineno hlimit hrun hname hcategory (by simp)
      · have hcall : follower after ≠ some '(' := by simp [hkey]
        rw [if_neg hcall, if_pos hkey] at hcategory
        exact Line.mem_located_of_name lineno hlimit hrun hname hcategory (by simp)
      · rw [if_neg hcall, if_neg hkey] at hcategory
        exact Line.exists_plain_of_run lineno hlimit hrun (Raw.not_isDigit_of_name hname) hcategory
  · intro s hs hnamed
    have hregion : s.category.isRegion = false := by rcases hnamed with h | h | h <;> rw [h] <;> rfl
    have hnumber : s.category ≠ .number := by rcases hnamed with h | h | h <;> simp [h]
    have hplain : s.category ≠ .plain := by rcases hnamed with h | h | h <;> simp [h]
    obtain ⟨before, after, hrun, hstart, hcategory⟩ :=
      Line.run_of_mem_located lineno hlimit hregion hnumber hplain hs
    refine ⟨before, after, hrun, hstart, ?_⟩
    rcases hnamed with hkeyword | hcall | hkey
    · exact .inl ⟨hkeyword, Raw.categoryOf_eq_keyword (hcategory.symm.trans hkeyword)⟩
    · obtain ⟨hkeyword, hname, hfollower⟩ :=
        Raw.categoryOf_eq_functionCall (hcategory.symm.trans hcall)
      exact .inr ⟨hkeyword, hname, .inl ⟨hcall, hfollower⟩⟩
    · obtain ⟨hkeyword, hname, hfollower⟩ :=
        Raw.categoryOf_eq_propertyKey (hcategory.symm.trans hkey)
      exact .inr ⟨hkeyword, hname, .inr ⟨hkey, hfollower⟩⟩

theorem Line.ofSource_names_blanks :
    let raw := "if (f\t( x '(' ), $k \x0c: 1 // g("
    let stretches := Span.located 0 (Line.ofSource { maxLineLength := some 80 } raw 1).value.spans
    (∀ limit ∈ (some 80 : Option Nat), raw.length ≤ limit) ∧
      ⟨.keyword, 0, "if".toList⟩ ∈ stretches ∧ ⟨.functionCall, 4, "f".toList⟩ ∈ stretches ∧
      (∃ start left right, start + left.length = 8 ∧
        ⟨.plain, start, left ++ "x".toList ++ right⟩ ∈ stretches) ∧
      ⟨.propertyKey, 17, "$k".toList⟩ ∈ stretches ∧
      ∀ s ∈ stretches, s.category = .functionCall → s.start ≠ 28 := by
  intro raw stretches
  have hlimit : ∀ limit ∈ (some 80 : Option Nat), raw.length ≤ limit := by
    intro limit h
    cases h
    decide
  have hreserved : Raw.Run raw.toList [] "if".toList " (f\t( x '(' ), $k \x0c: 1 // g(".toList :=
    ⟨by decide, by decide, by decide, by simp [isIdentifierChar], by decide, by decide⟩
  have hcall : Raw.Run raw.toList "if (".toList "f".toList "\t( x '(' ), $k \x0c: 1 // g(".toList :=
    ⟨by decide, by decide, by decide, by simp [isIdentifierChar], by decide, by decide⟩
  have hname : Raw.Run raw.toList "if (f\t( ".toList "x".toList " '(' ), $k \x0c: 1 // g(".toList :=
    ⟨by decide, by decide, by decide, by simp [isIdentifierChar], by decide, by decide⟩
  have hkey : Raw.Run raw.toList "if (f\t( x '(' ), ".toList "$k".toList " \x0c: 1 // g(".toList :=
    ⟨by decide, by decide, by decide, by simp [isIdentifierChar], by decide, by decide⟩
  obtain ⟨hruns, hnames⟩ := Line.ofSource_names { maxLineLength := some 80 } raw 1 hlimit
  refine ⟨hlimit, ?_, ?_, ?_, ?_, ?_⟩
  · exact (hruns _ _ _ hreserved).1 (by decide)
  · exact ((hruns _ _ _ hcall).2 (by decide) (by decide)).1 (by decide)
  · exact ((hruns _ _ _ hname).2 (by decide) (by decide)).2.2 (by decide) (by decide)
  · exact ((hruns _ _ _ hkey).2 (by decide) (by decide)).2.1 (by decide)
  · intro s hs hcategory hstart
    -- the scan is in the comment there
    obtain ⟨before, after, hrun, hlength, -⟩ := hnames s hs (.inr (.inl hcategory))
    exact absurd (hrun.after_take (hlength.trans hstart)) (by decide)

end ScriptSpans
