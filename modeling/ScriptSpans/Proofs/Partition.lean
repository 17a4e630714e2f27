import ScriptSpans.Partition
import ScriptSpans.Proofs.Numeral

namespace ScriptSpans

structure IsLongestCommonPrefix (a b common : List Char) : Prop where
  left : common <+: a
  right : common <+: b
  longest : ∀ other, other <+: a → other <+: b → other <+: common

section prefixes

variable {a b common other : List Char}

theorem IsLongestCommonPrefix.unique (h : IsLongestCommonPrefix a b common)
    (h' : IsLongestCommonPrefix a b other) :
    common = other := by
  have hle := h'.longest common h.left h.right
  have hge := h.longest other h'.left h'.right
  exact hle.eq_of_length (Nat.le_antisymm hle.length_le hge.length_le)

theorem IsLongestCommonPrefix.length_of_prefix (h : IsLongestCommonPrefix a b common)
    (hab : a <+: b ∨ b <+: a) :
    common.length = min a.length b.length := by
  have hleft := h.left.length_le
  have hright := h.right.length_le
  rcases hab with hab | hab
  · have hlongest := (h.longest a List.prefix_rfl hab).length_le
    omega
  · have hlongest := (h.longest b hab List.prefix_rfl).length_le
    omega

theorem IsLongestCommonPrefix.cons (c : Char) (h : IsLongestCommonPrefix a b common) :
    IsLongestCommonPrefix (c :: a) (c :: b) (c :: common) where
  left := List.cons_prefix_cons.mpr ⟨rfl, h.left⟩
  right := List.cons_prefix_cons.mpr ⟨rfl, h.right⟩
  longest := by
    intro other hleft hright
    rcases List.prefix_cons_iff.mp hleft with rfl | ⟨later, rfl, hlater⟩
    · exact List.nil_prefix
    · exact List.cons_prefix_cons.mpr ⟨rfl,
        h.longest later hlater (List.cons_prefix_cons.mp hright).2⟩

theorem isLongestCommonPrefix_nil (h : ∀ c as bs, a = c :: as → b ≠ c :: bs) :
    IsLongestCommonPrefix a b [] where
  left := List.nil_prefix
  right := List.nil_prefix
  longest := by
    rintro (_ | ⟨c, later⟩) ⟨as, hleft⟩ ⟨bs, hright⟩
    · exact List.nil_prefix
    · exact absurd hright.symm (h c (later ++ as) (later ++ bs) hleft.symm)

theorem exists_commonLength (a b : List Char) :
    ∃ common, IsLongestCommonPrefix a b common ∧ common.length = commonLength a b := by
  -- Along the comparison, which stops at the first difference or at the end of a text.
  fun_induction commonLength a b with
  | case1 as c bs ih =>
    obtain ⟨common, hcommon, hlength⟩ := ih
    exact ⟨c :: common, hcommon.cons c, congrArg Nat.succ hlength⟩
  | case2 a as b bs hne =>
    refine ⟨[], isLongestCommonPrefix_nil ?_, rfl⟩
    rintro c _ _ hleft hright
    exact hne ((List.cons.inj hleft).1.trans (List.cons.inj hright).1.symm)
  | case3 as bs hnil =>
    refine ⟨[], isLongestCommonPrefix_nil ?_, rfl⟩
    rintro c as bs rfl rfl
    exact hnil c as c bs rfl rfl

end prefixes

/-- The reports on a line that is checked against its source, by the text that its spans rebuild:
the first empty span, without a column, or, if there is none, a difference, at the column behind
what the two texts have in common. -/
inductive Line.Reported (line : Line) (rebuilt source : String) : DefectReport → Prop
  | empty {before after : List Span} {span : Span} : line.spans = before ++ span :: after →
      (∀ earlier ∈ before, earlier.text ≠ "") → span.text = "" →
      Reported line rebuilt source ⟨s!"empty {span.category.name} span", some line.lineno, none⟩
  | difference {common : List Char} : (∀ span ∈ line.spans, span.text ≠ "") → rebuilt ≠ source →
      IsLongestCommonPrefix source.toList rebuilt.toList common →
      Reported line rebuilt source
        ⟨s!"spans rebuild {Text.quoted rebuilt}, expected {Text.quoted source}",
        some line.lineno, some (common.length + 1)⟩

namespace DefectReport

variable {r other : DefectReport}

theorem eq_of_fault (h : r.fault = .defect other) : r = other := by
  rw [fault] at h
  split at h <;> cases h
  rfl

theorem fault_of_lt (hlineno : ∀ n ∈ r.lineno, n.natAbs < 10 ^ Text.digitLimit)
    (hcolumn : ∀ n ∈ r.column, n.natAbs < 10 ^ Text.digitLimit) : r.fault = .defect r := by
  obtain ⟨message, lineno, column⟩ := r
  cases lineno with
  | none => rfl
  | some lineno =>
    have hline := Text.numeral?_of_lt (hlineno lineno rfl)
    cases column with
    | none => simp [fault, located, hline]
    | some column =>
      have hplace := Text.numeral?_of_lt (hcolumn column rfl)
      simp [fault, located, hline, hplace]

theorem fault_of_lineno {n : Int} (hlineno : r.lineno = some n) (hn : Text.numeral? n = none) :
    r.fault = .unwritable := by
  obtain ⟨message, lineno, column⟩ := r
  obtain rfl : lineno = some n := hlineno
  cases column <;> simp [fault, located, hn]

end DefectReport

namespace Line

variable {line : Line} {source : String}

theorem nonempty_or_first (line : Line) : (∀ span ∈ line.spans, span.text ≠ "") ∨
    ∃ before span after, line.spans = before ++ span :: after ∧
      (∀ earlier ∈ before, earlier.text ≠ "") ∧
      span.text = "" := by
  cases hfind : line.spans.find? (fun span ↦ span.text.isEmpty) with
  | none =>
    left
    simpa using hfind
  | some span =>
    right
    obtain ⟨hspan, before, after, hspans, hbefore⟩ := List.find?_eq_some_iff_append.mp hfind
    exact ⟨before, span, after, hspans, by simpa using hbefore, by simpa using hspan⟩

theorem find?_of_nonempty (h : ∀ span ∈ line.spans, span.text ≠ "") :
    line.spans.find? (fun span ↦ span.text.isEmpty) = none := by
  simpa using h

theorem check_of_eq (h : ∀ span ∈ line.spans, span.text ≠ "") (hsource : line.source = source) :
    line.check source = .ok () := by
  rw [check, defect?, find?_of_nonempty h, if_pos hsource]

theorem check_of_reported {report : DefectReport} (h : line.Reported line.source source report) :
    line.check source = .error report.fault := by
  cases h with
  | @empty before after span hspans hbefore hspan =>
    have hfind : line.spans.find? (fun span ↦ span.text.isEmpty) = some span :=
      List.find?_eq_some_iff_append.mpr
        ⟨by simpa using hspan, before, after, hspans, by simpa using hbefore⟩
    rw [check, defect?, hfind]
    rfl
  | @difference common hall hne hcommon =>
    obtain ⟨other, hother, hlength⟩ := exists_commonLength source.toList line.source.toList
    rw [check, defect?, find?_of_nonempty hall, if_neg hne, hcommon.unique hother, ← hlength]
    rfl

theorem passes_or_reported (line : Line) (source : String) :
    ((∀ span ∈ line.spans, span.text ≠ "") ∧ line.source = source) ∨
      ∃ report, line.Reported line.source source report := by
  rcases line.nonempty_or_first with hall | ⟨before, span, after, hspans, hbefore, hspan⟩
  · by_cases hsource : line.source = source
    · exact .inl ⟨hall, hsource⟩
    · obtain ⟨common, hcommon, -⟩ := exists_commonLength source.toList line.source.toList
      exact .inr ⟨_, .difference hall hsource hcommon⟩
  · exact .inr ⟨_, .empty hspans hbefore hspan⟩

theorem check_eq_ok_iff :
    line.check source = .ok () ↔
      (∀ span ∈ line.spans, span.text ≠ "") ∧ line.source = source := by
  refine ⟨fun h ↦ ?_, fun h ↦ check_of_eq h.1 h.2⟩
  rcases line.passes_or_reported source with hpasses | ⟨report, hreport⟩
  · exact hpasses
  · rw [check_of_reported hreport] at h
    cases h

theorem Reported.lineno {rebuilt : String} {report : DefectReport}
    (h : line.Reported rebuilt source report) : report.lineno = some line.lineno := by
  cases h <;> rfl

theorem check_eq_defect_iff {report : DefectReport}
    (hlineno : line.lineno.natAbs < 10 ^ Text.digitLimit)
    (hcolumn : ∀ column ∈ report.column, column.natAbs < 10 ^ Text.digitLimit) :
    line.check source = .error (.defect report) ↔ line.Reported line.source source report := by
  constructor
  · intro h
    rcases line.passes_or_reported source with ⟨hall, hsource⟩ | ⟨other, hother⟩
    · rw [check_of_eq hall hsource] at h
      cases h
    · rw [check_of_reported hother] at h
      rwa [← DefectReport.eq_of_fault (Except.error.inj h)]
  · intro h
    rw [check_of_reported h, DefectReport.fault_of_lt _ hcolumn]
    rw [h.lineno]
    rintro n ⟨⟩
    exact hlineno

/-- A line passes when it has no empty span and rebuilds its source, and fails with its report
otherwise, if the place has numerals. When one of the two texts begins with the other, the column is
the one behind the shorter. -/
theorem check_exact (line : Line) (source : String) :
    let rebuilt := Markup.unescape (String.join (line.spans.map Span.text))
    (line.check source = .ok () ↔ (∀ span ∈ line.spans, span.text ≠ "") ∧ rebuilt = source) ∧
      (line.lineno.natAbs < 10 ^ Text.digitLimit → ∀ report : DefectReport,
        (∀ column ∈ report.column, column.natAbs < 10 ^ Text.digitLimit) →
        (line.check source = .error (.defect report) ↔ line.Reported rebuilt source report)) ∧
      ∀ report column, line.Reported rebuilt source report → report.column = some column →
        source.toList <+: rebuilt.toList ∨ rebuilt.toList <+: source.toList →
        column = min source.length rebuilt.length + 1 := by
  intro rebuilt
  refine ⟨check_eq_ok_iff, fun hlineno _ ↦ check_eq_defect_iff hlineno, ?_⟩
  intro report column h hcolumn hprefix
  cases h with
  | empty => cases hcolumn
  | difference hall hne hcommon =>
    cases hcolumn
    have hlength := hcommon.length_of_prefix hprefix
    rw [String.length_toList, String.length_toList] at hlength
    rw [hlength]

theorem check_exact_split :
    let line : Line := ⟨[⟨.string, "&l"⟩, ⟨.plain, "t;x"⟩], 7⟩
    let report : DefectReport := ⟨"spans rebuild '<x', expected '<y'", some 7, some 2⟩
    (line.lineno.natAbs < 10 ^ Text.digitLimit ∧
        ∀ column ∈ report.column, column.natAbs < 10 ^ Text.digitLimit) ∧
      line.check "<y" = .error (.defect report) := by
  intro line report
  have hlineno : line.lineno.natAbs < 10 ^ Text.digitLimit :=
    Nat.lt_of_lt_of_le (by decide) Text.ten_le_pow_digitLimit
  have hcolumn : ∀ column ∈ report.column, column.natAbs < 10 ^ Text.digitLimit := by
    rintro column ⟨⟩
    exact Nat.lt_of_lt_of_le (by decide) Text.ten_le_pow_digitLimit
  refine ⟨⟨hlineno, hcolumn⟩, ((line.check_exact "<y").2.1 hlineno report hcolumn).mpr ?_⟩
  have hrebuilt : Markup.unescape (String.join (line.spans.map Span.text)) = "<x" := by
    decide +kernel
  have hbehind : IsLongestCommonPrefix ['y'] ['x'] [] := by
    refine isLongestCommonPrefix_nil fun c as bs hleft hright ↦ ?_
    exact absurd ((List.cons.inj hleft).1.trans (List.cons.inj hright).1.symm) (by decide)
  have hcommon : IsLongestCommonPrefix "<y".toList "<x".toList ['<'] := by
    simpa using hbehind.cons '<'
  have hreport : report = (Defect.mismatch "<x" "<y" (['<'].length + 1)).report line.lineno := by
    decide +kernel
  rw [hrebuilt, hreport]
  exact .difference (by decide) (by decide) hcommon

/-- The report on a line whose number has one digit too many cannot be written. -/
theorem not_check_exact :
    let line : Line := ⟨[], 10 ^ Text.digitLimit⟩
    let rebuilt := Markup.unescape (String.join (line.spans.map Span.text))
    line.Reported rebuilt "x" ⟨"spans rebuild '', expected 'x'", some line.lineno, some 1⟩ ∧
      line.check "x" = .error .unwritable := by
  intro line rebuilt
  have hrebuilt : rebuilt = "" := by decide +kernel
  have hcommon : IsLongestCommonPrefix "x".toList "".toList [] :=
    isLongestCommonPrefix_nil (by simp)
  have hmessage : (Defect.mismatch "" "x" 1).message = "spans rebuild '', expected 'x'" := by
    decide +kernel
  have hreported :
      line.Reported rebuilt "x" ⟨"spans rebuild '', expected 'x'", some line.lineno, some 1⟩ := by
    rw [hrebuilt, ← hmessage]
    exact .difference (by decide) (by decide) hcommon
  have hfault := DefectReport.fault_of_lineno hreported.lineno Text.numeral?_pow_digitLimit
  exact ⟨hreported, (check_of_reported hreported).trans (congrArg Except.error hfault)⟩

end Line

end ScriptSpans
