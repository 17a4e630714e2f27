import ScriptSpans.Proofs.Html.Blocks
import ScriptSpans.Proofs.Markup.Entities
import Mathlib.Data.Option.Basic

namespace ScriptSpans

open Markup

theorem Line.Partitions.not_mem_open {raw : String} {line : Line} (h : line.Partitions raw) :
    ∀ span ∈ line.spans, '<' ∉ span.text.toList := by
  intro span hspan hmem
  obtain ⟨slices, -, -, htexts, -⟩ := h.slices
  obtain ⟨slice, -, hslice⟩ := List.mem_map.mp (htexts ▸ List.mem_map_of_mem hspan)
  rw [← hslice, escape, String.toList_ofList] at hmem
  exact Bool.noConfusion (not_isBracket_of_mem_escapeList _ hmem)

namespace Html

def tagsOf (markup : String) : List String := (tags markup.toList).map String.ofList

/-- Before any rest, the markup has these tags. -/
def Tagged (markup : String) (inside : List String) : Prop :=
  ∀ rest, tagsOf (markup ++ rest) = inside ++ tagsOf rest

def elementTags (name attributes : String) (inside : List String) : List String :=
  (name ++ attributes) :: inside ++ ["/" ++ name]

theorem Tagged.tagsOf_eq {markup : String} {inside : List String} (h : Tagged markup inside) :
    tagsOf markup = inside := by
  have hempty := h ""
  rwa [String.append_empty, show tagsOf "" = [] from rfl, List.append_nil] at hempty

theorem tagged_text {text : String} (h : '<' ∉ text.toList) : Tagged text [] := by
  intro rest
  rw [tagsOf, String.toList_append, tags_text h, List.nil_append, tagsOf]

theorem tagged_tag {inside : String} (h : ∀ c ∈ inside.toList, isBracket c = false) :
    Tagged ("<" ++ inside ++ ">") [inside] := by
  intro rest
  have htext :
      ("<" ++ inside ++ ">" ++ rest).toList = '<' :: inside.toList ++ '>' :: rest.toList := by
    simp [String.toList_append]
  rw [tagsOf, htext, tags_tag h, List.map_cons, String.ofList_toList, List.singleton_append, tagsOf]

theorem Tagged.append {first later : String} {inside insideLater : List String}
    (h : Tagged first inside) (hlater : Tagged later insideLater) :
    Tagged (first ++ later) (inside ++ insideLater) := by
  intro rest
  rw [String.append_assoc, h, hlater, List.append_assoc]

theorem Tagged.element {name attributes body : String} {inside : List String}
    (hname : IsName name.toList) (hattributes : IsAttributes attributes.toList)
    (h : Tagged body inside) :
    Tagged (element name attributes body) (elementTags name attributes inside) := by
  have hopening : Tagged ("<" ++ (name ++ attributes) ++ ">") [name ++ attributes] := by
    apply tagged_tag
    rw [String.toList_append]
    exact hname.inside_opening hattributes
  have hclosing : Tagged ("<" ++ ("/" ++ name) ++ ">") ["/" ++ name] := by
    apply tagged_tag
    rw [String.toList_append]
    exact hname.inside_closing
  have hslash : "</" = "<" ++ "/" := rfl
  have htext : Html.element name attributes body =
      "<" ++ (name ++ attributes) ++ ">" ++ body ++ ("<" ++ ("/" ++ name) ++ ">") := by
    simp only [Html.element, hslash, String.append_assoc]
  rw [htext]
  exact (hopening.append h).append hclosing

theorem Tagged.spanElement {name body : String} {inside : List String}
    (hname : ∀ c ∈ name.toList, isBracket c = false) (h : Tagged body inside) :
    Tagged (spanElement name body) (elementTags "span" (classAttribute name) inside) := by
  rw [spanElement_eq]
  exact h.element (by simp [IsName]) (isAttributes_classAttribute hname)

theorem Tagged.divElement {name body : String} {inside : List String}
    (hname : ∀ c ∈ name.toList, isBracket c = false) (h : Tagged body inside) :
    Tagged (divElement name body) (elementTags "div" (classAttribute name) inside) := by
  rw [divElement_eq]
  exact h.element (by simp [IsName]) (isAttributes_classAttribute hname)

theorem tagged_intercalate {α : Type} {inside : α → List String} {markups : List String}
    {lines : List α}
    (h : List.Forall₂ (fun markup line ↦ Tagged markup (inside line)) markups lines) :
    Tagged ("\n".intercalate markups) (lines.flatMap inside) := by
  have hbreak : Tagged "\n" [] := tagged_text (by simp)
  induction h with
  | nil => exact tagged_text (by simp)
  | @cons markup line markups lines hline hlater ih =>
    cases hlater with
    | nil => simpa using hline
    | @cons next nextLine markups lines hnext hlater =>
      have hfirst := hline.append hbreak
      rw [List.append_nil] at hfirst
      rw [String.intercalate_cons_cons, List.flatMap_cons]
      exact hfirst.append ih

def spanTags (classes : ClassMap) (category : Category) : List String :=
  match classes category with
  | some (.classed name) => elementTags "span" (classAttribute name) []
  | _ => []

def lineTags (classes : ClassMap) (numbered : Bool) (line : List Category × Bool) : List String :=
  let code := line.1.flatMap (spanTags classes)
  let body := if numbered then elementTags "span" (classAttribute "lineno") [] ++ code else code
  if line.2 then elementTags "span" (classAttribute "hll") body else body

section lines

variable {classes : ClassMap} (htotal : classes.Total) (hopen : classes.Avoids '<')
    (hclose : classes.Avoids '>')

include hopen hclose in
theorem styled_tagged {category : Category} {styling : Styling}
    (hstyling : classes category = some styling) {text : String} (htext : '<' ∉ text.toList) :
    Tagged (styled text styling) (spanTags classes category) := by
  rw [spanTags, hstyling]
  cases styling with
  | bare => exact tagged_text htext
  | classed name =>
    exact (tagged_text htext).spanElement (not_isBracket_class hopen hclose hstyling)

include htotal hopen hclose in
theorem ofSpans_tagged (lineno : Int) {spans : List Span}
    (htexts : ∀ span ∈ spans, '<' ∉ span.text.toList) :
    ∃ markup, ofSpans classes lineno spans = .ok markup ∧
      Tagged markup ((spans.map Span.category).flatMap (spanTags classes)) := by
  induction spans with
  | nil => exact ⟨"", rfl, tagged_text (by simp)⟩
  | cons span later ih =>
    obtain ⟨htext, hlater⟩ := List.forall_mem_cons.mp htexts
    obtain ⟨markup, hmarkup, htagged⟩ := ih hlater
    obtain ⟨styling, hstyling, hspans⟩ := ofSpans_cons htotal span hmarkup
    exact ⟨_, hspans, (styled_tagged hopen hclose hstyling htext).append htagged⟩

theorem tagged_lineno (n : Int) : Tagged (toString n) [] := by
  have hdigits : ∀ n : Nat, '<' ∉ (toString n).toList := by
    intro n hmem
    have hdigit := isDigit_of_mem_toString hmem
    cases hdigit
  apply tagged_text
  cases n with
  | ofNat n => exact hdigits n
  | negSucc n =>
    have hminus : toString (Int.negSucc n) = "-" ++ toString (n + 1) := rfl
    rw [hminus, String.toList_append, List.mem_append, not_or]
    exact ⟨by simp, hdigits (n + 1)⟩

theorem decorated_tagged (options : BlockOptions) (line : Line) {body : String}
    (h : Tagged body (line.categories.flatMap (spanTags classes))) :
    Tagged (options.decorated line.lineno (toString line.lineno) body)
      (lineTags classes options.numbered (line.categories,
        decide (line.lineno ∈ options.emphasized))) := by
  have hnumbered :
      Tagged (if options.numbered then spanElement "lineno" (toString line.lineno) ++
      body else body)
      (if options.numbered then elementTags "span" (classAttribute "lineno") [] ++
        line.categories.flatMap (spanTags classes) else line.categories.flatMap
          (spanTags classes)) := by
    split
    · exact ((tagged_lineno line.lineno).spanElement (by simp [isBracket])).append h
    · exact h
  rw [BlockOptions.decorated, lineTags]
  by_cases hemphasized : line.lineno ∈ options.emphasized
  · simp only [hemphasized, if_true, decide_true]
    exact hnumbered.spanElement (by simp [isBracket])
  · simp only [hemphasized, if_false, decide_false, Bool.false_eq_true]
    exact hnumbered

include htotal hopen hclose in
theorem ofLines_tagged (options : BlockOptions) {lines : List Line}
    (htexts : ∀ line ∈ lines, ∀ span ∈ line.spans, '<' ∉ span.text.toList) :
    ∃ markups, ofLines classes (options.finish fun n ↦ some (toString n)) lines = .ok markups ∧
      List.Forall₂ (fun markup (line : Line) ↦ Tagged markup
        (lineTags classes options.numbered (line.categories,
          decide (line.lineno ∈ options.emphasized))))
        markups lines := by
  refine ofLines_ok (List.forall₂_same.mpr fun line hline ↦ ?_)
  obtain ⟨body, hbody, htagged⟩ :=
    ofSpans_tagged htotal hopen hclose line.lineno (htexts line hline)
  exact ⟨body, _, hbody, finish_eq_ok options line body, decorated_tagged options line htagged⟩

end lines

theorem finish_congr {options : BlockOptions} {numeral? : Int → Option String}
    {emphasized : List Int} {line : Line}
    (h : line.lineno ∈ emphasized ↔ line.lineno ∈ options.emphasized) :
    BlockOptions.finish { options with emphasized } numeral? line =
      options.finish numeral? line := by
  funext body
  simp only [BlockOptions.finish, BlockOptions.decorated, h]

def valueAttribute (value : Option String) : String :=
  value.elim "" (fun value ↦ classAttribute ("language-" ++ value))

/-- A block by what is written in it: the label, the value for the language, and the code. -/
def frame (label value : Option String) (code : String) : String :=
  element "div" (classAttribute "code-block")
    (label.elim "" (fun label ↦ divElement "code-header" (spanElement "code-label" label)) ++
      element "pre" "" (element "code" (valueAttribute value) code))

def blockTags (classes : ClassMap) (headed : Bool) (value : Option String) (numbered : Bool)
    (lines : List (List Category × Bool)) : List String :=
  let label :=
    elementTags "div" (classAttribute "code-header")
    (elementTags "span" (classAttribute "code-label") [])
  let code := elementTags "code" (valueAttribute value) (lines.flatMap (lineTags classes numbered))
  elementTags "div" (classAttribute "code-block")
    ((if headed then label else []) ++ elementTags "pre" "" code)

theorem languageAttribute_eq (language : Option String) :
    languageAttribute language = valueAttribute
      ((language.filter (· ≠ "")).map escapeAttribute) := by
  cases language with
  | none => rfl
  | some name =>
    by_cases hname : name = ""
    · subst hname
      rfl
    · have hempty : name.isEmpty = false := by simpa using hname
      have hfilter : (some name).filter (· ≠ "") = some name :=
        Option.filter_some_pos (by simpa using hname)
      rw [languageAttribute, hempty, hfilter]
      exact classAttribute_language (escapeAttribute name)

theorem block_eq_frame (header language : Option String) (code : String) :
    block header language code =
      frame (header.map escapeAttribute) ((language.filter (· ≠ "")).map escapeAttribute) code := by
  have hheader : headerElement header = (header.map escapeAttribute).elim ""
      (fun label ↦ divElement "code-header" (spanElement "code-label" label)) := by
    cases header <;> rfl
  rw [block_eq, frame, hheader, languageAttribute_eq]

theorem isAttributes_valueAttribute {value : Option String}
    (h : ∀ text ∈ value, ∀ c ∈ text.toList, isBracket c = false) :
    IsAttributes (valueAttribute value).toList := by
  cases value with
  | none => exact isAttributes_nil
  | some text =>
    apply isAttributes_classAttribute
    rw [String.toList_append, List.forall_mem_append]
    exact ⟨by simp [isBracket], h text rfl⟩

theorem frame_tagged {label value : Option String} {code : String} {classes : ClassMap}
    {numbered : Bool} {lines : List (List Category × Bool)}
    (hlabel : ∀ text ∈ label, ∀ c ∈ text.toList, isBracket c = false)
    (hvalue : ∀ text ∈ value, ∀ c ∈ text.toList, isBracket c = false)
    (h : Tagged code (lines.flatMap (lineTags classes numbered))) :
    Tagged (frame label value code) (blockTags classes label.isSome value numbered lines) := by
  have hnames : ∀ name ∈ ["div", "pre", "code"], IsName name.toList := by simp [IsName]
  have hclass : ∀ c ∈ "code-block".toList, isBracket c = false := by simp [isBracket]
  have hcode := h.element (hnames "code" (by simp)) (isAttributes_valueAttribute hvalue)
  have hpre := hcode.element (hnames "pre" (by simp)) isAttributes_nil
  rw [frame, blockTags]
  refine Tagged.element (hnames "div" (by simp)) (isAttributes_classAttribute hclass) ?_
  cases label with
  | none => exact (tagged_text (by simp)).append hpre
  | some text =>
    have hopen : '<' ∉ text.toList := fun hmem ↦ Bool.noConfusion (hlabel text rfl _ hmem)
    have hlabel : ∀ c ∈ "code-label".toList, isBracket c = false := by simp [isBracket]
    have hheader : ∀ c ∈ "code-header".toList, isBracket c = false := by simp [isBracket]
    exact (((tagged_text hopen).spanElement hlabel).divElement hheader).append hpre

/-- Documents whose spans hold no opening bracket are written with the tags that their categories
ask for. -/
theorem blockOf_tagged {classes : ClassMap} (htotal : classes.Total) (hopen : classes.Avoids '<')
    (hclose : classes.Avoids '>') (options : BlockOptions) {doc : Document}
    (htexts : ∀ line ∈ doc.lines, ∀ span ∈ line.spans, '<' ∉ span.text.toList) :
    let label := options.header.map escapeAttribute
    let value := (options.language.filter (· ≠ "")).map escapeAttribute
    ∃ code, blockOf classes options doc = .ok (frame label value code) ∧
      tagsOf (frame label value code) = blockTags classes options.header.isSome value
        options.numbered
        (doc.lines.map
          (fun line ↦ (line.categories, decide (line.lineno ∈ options.emphasized)))) := by
  intro label value
  have hwritten :
      ∀ (text : Option String), ∀ written ∈ text.map escapeAttribute, ∀ c ∈ written.toList,
      isBracket c = false := by
    intro text written hwritten
    obtain ⟨text, -, rfl⟩ := Option.mem_map.mp hwritten
    exact not_isBracket_of_mem_escapeAttribute
  obtain ⟨markups, hmarkups, htagged⟩ := ofLines_tagged htotal hopen hclose options htexts
  have hcode := tagged_intercalate (List.forall₂_map_right_iff.mpr htagged)
  refine ⟨"\n".intercalate markups, ?_, ?_⟩
  · rw [blockOf, blockBy, hmarkups]
    exact congrArg _ (block_eq_frame _ _ _)
  · rw [(frame_tagged (hwritten _) (hwritten _) hcode).tagsOf_eq, Option.isSome_map]

theorem not_mem_open_ofSource (config : Config) (source : String) :
    ∀ line ∈ (Document.ofSource config source).value.lines, ∀ span ∈ line.spans,
      '<' ∉ span.text.toList := by
  intro line hline
  rw [Document.ofSource_lines] at hline
  obtain ⟨p, -, rfl⟩ := List.mem_map.mp hline
  exact (Line.partitions_ofSource config p.1 p.2).not_mem_open

/-- A snippet makes a block of which only the label, the value for the language and the code are not
fixed. The label and the value can stand between quotes and are read back as the header and the
language, the tags are those that `blockTags` lists, and of the numbers to emphasise only those of
lines that are there count. -/
theorem blockOf_tags (config : Config) (source : String) (classes : ClassMap)
    (htotal : classes.Total) (hopen : classes.Avoids '<') (hclose : classes.Avoids '>')
    (options : BlockOptions) :
    let doc := (Document.ofSource config source).value
    let label := options.header.map escapeAttribute
    let value := (options.language.filter (· ≠ "")).map escapeAttribute
    (∃ code, blockOf classes options doc = .ok (frame label value code) ∧
      tagsOf (frame label value code) = blockTags classes options.header.isSome value
        options.numbered
        (doc.lines.map (fun line ↦ (line.categories, decide (line.lineno ∈ options.emphasized))))) ∧
      Option.Rel Quotes label options.header ∧
        Option.Rel Quotes value (options.language.filter (· ≠ "")) ∧
      ∀ emphasized, (∀ n ∈ doc.lines.map Line.lineno, n ∈ emphasized ↔ n ∈ options.emphasized) →
        blockOf classes { options with emphasized } doc = blockOf classes options doc := by
  intro doc label value
  refine ⟨?_, quotes_map _, quotes_map _, ?_⟩
  · exact blockOf_tagged htotal hopen hclose options (not_mem_open_ofSource config source)
  · intro emphasized hsame
    have hfinish : ∀ line ∈ doc.lines,
        BlockOptions.finish { options with emphasized } (fun n ↦ some (toString n)) line =
          options.finish (fun n ↦ some (toString n)) line :=
      fun line hline ↦ finish_congr (hsame line.lineno (List.mem_map_of_mem hline))
    rw [blockOf, blockBy, ofLines_congr hfinish, blockOf, blockBy]

/-- The class, the texts and the code may all look like markup, and numbers to emphasise may be
repeated or stand for no line. -/
theorem blockOf_tags_quoted :
    let classes : ClassMap :=
      fun category ↦ if category = .plain then some .bare else some (.classed "a\" &lt;")
    let options : BlockOptions := ⟨some "</div>&#x27;", some "\"><i a='", [2, 99, 2, -1], true⟩
    let doc := (Document.ofSource {} "<x>\n'</p>'").value
    (classes.Total ∧ classes.Avoids '<' ∧ classes.Avoids '>') ∧
      (∃ markup, blockOf classes options doc = .ok markup ∧
        tagsOf markup = ["div class=\"code-block\"", "div class=\"code-header\"",
          "span class=\"code-label\"", "/span", "/div", "pre",
          "code class=\"language-&quot;&gt;&lt;i a=&#x27;\"", "span class=\"lineno\"", "/span",
          "span class=\"hll\"", "span class=\"lineno\"", "/span",
          "span class=\"a\" &lt;\"", "/span", "/span", "/code", "/pre", "/div"]) ∧
      (∀ n ∈ doc.lines.map Line.lineno, n ∈ ([2] : List Int) ↔ n ∈ options.emphasized) ∧
      blockOf classes { options with emphasized := [2] } doc = blockOf classes options doc := by
  intro classes options doc
  have htotal : classes.Total := total_oneClass _
  have hopen : classes.Avoids '<' := avoids_oneClass (by simp)
  have hclose : classes.Avoids '>' := avoids_oneClass (by simp)
  obtain ⟨⟨code, hmarkup, htags⟩, -, -, hsame⟩ :=
    blockOf_tags {} "<x>\n'</p>'" classes htotal hopen hclose options
  have hlines :
      doc.lines.map (fun line ↦ (line.categories, decide (line.lineno ∈ options.emphasized))) =
      [([.plain], false), ([.string], true)] := by
    rw [Document.ofSource_lines, List.map_map]
    simp only [Line.ofSource_value]
    decide +kernel
  have hnumbers : doc.lines.map Line.lineno = [1, 2] := by
    have hlength : doc.lines.length = 2 := by simpa using congrArg List.length hlines
    rw [Document.map_lineno_lines, hlength]
    decide
  have hemphasized : ∀ n ∈ doc.lines.map Line.lineno, n ∈ ([2] : List Int) ↔
      n ∈ options.emphasized := by
    rw [hnumbers]
    decide
  rw [hlines] at htags
  exact ⟨⟨htotal, hopen, hclose⟩, ⟨_, hmarkup, htags.trans (by decide +kernel)⟩, hemphasized,
    hsame [2] hemphasized⟩

end Html

end ScriptSpans
