import ScriptSpans.Highlighter
import ScriptSpans.Proofs.Html.Lines
import ScriptSpans.Proofs.Markup.Nesting

namespace ScriptSpans

open Markup

namespace Html

def element (name attributes body : String) : String :=
  "<" ++ name ++ attributes ++ ">" ++ body ++ "</" ++ name ++ ">"

def classAttribute (name : String) : String := " class=\"" ++ name ++ "\""

theorem element_classAttribute (tag name body : String) :
    element tag (classAttribute name) body =
      ("<" ++ tag ++ " class=\"") ++ name ++ ("\"" ++ ">") ++ body ++ ("</" ++ tag ++ ">") := by
  simp only [element, classAttribute, String.append_assoc]

theorem spanElement_eq (name body : String) :
    spanElement name body = element "span" (classAttribute name) body :=
  (element_classAttribute "span" name body).symm

theorem divElement_eq (name body : String) :
    divElement name body = element "div" (classAttribute name) body :=
  (element_classAttribute "div" name body).symm

theorem block_eq (header language : Option String) (code : String) :
    block header language code = element "div" (classAttribute "code-block")
      (headerElement header ++ element "pre" ""
        (element "code" (languageAttribute language) code)) := by
  rw [block, divElement_eq]
  apply congrArg
  apply String.toList_inj.mp
  simp [element, String.toList_append]

theorem shows_element {name attributes body : String} {shown : List Char}
    (hname : IsName name.toList) (hattributes : IsAttributes attributes.toList)
    (h : Shows body.toList shown) :
    Shows (element name attributes body).toList shown := by
  have helement := Shows.element hname hattributes h
  have htext : (element name attributes body).toList =
      '<' :: (name.toList ++ attributes.toList) ++
        '>' :: (body.toList ++ ('<' :: '/' :: name.toList ++ ['>'])) := by
    simp [element, String.toList_append]
  rwa [htext]

theorem isAttributes_classAttribute {name : String} (h : ∀ c ∈ name.toList, isBracket c = false) :
    IsAttributes (classAttribute name).toList where
  space := by simp [classAttribute, String.toList_append]
  inside := by
    rw [classAttribute, String.toList_append, String.toList_append, List.forall_mem_append,
      List.forall_mem_append]
    exact ⟨⟨by simp [isBracket], h⟩, by simp [isBracket]⟩

theorem isAttributes_nil : IsAttributes "".toList := ⟨rfl, fun _ hc ↦ absurd hc List.not_mem_nil⟩

theorem classAttribute_language (value : String) :
    " class=\"language-" ++ value ++ "\"" = classAttribute ("language-" ++ value) := by
  rw [classAttribute, ← String.append_assoc]
  rfl

theorem isAttributes_languageAttribute (language : Option String) :
    IsAttributes (languageAttribute language).toList := by
  cases language with
  | none => exact isAttributes_nil
  | some name =>
    rw [languageAttribute]
    split
    · exact isAttributes_nil
    · rw [classAttribute_language]
      apply isAttributes_classAttribute
      rw [String.toList_append, List.forall_mem_append]
      exact ⟨by simp [isBracket], not_isBracket_of_mem_escapeAttribute⟩

theorem shows_block (language : Option String) {code : String} {shown : List Char}
    (h : Shows code.toList shown) :
    Shows (block none language code).toList shown := by
  have hname : ∀ name ∈ ["div", "pre", "code"], IsName name.toList := by
    simp [IsName]
  have hclass : ∀ c ∈ "code-block".toList, isBracket c = false := by simp [isBracket]
  have hcode := shows_element (hname "code" (by simp)) (isAttributes_languageAttribute language) h
  have hpre := shows_element (hname "pre" (by simp)) isAttributes_nil hcode
  rw [block_eq, headerElement, String.empty_append]
  exact shows_element (hname "div" (by simp)) (isAttributes_classAttribute hclass) hpre

theorem shows_spanElement {name body : String} (hname : ∀ c ∈ name.toList, isBracket c = false)
    {shown : List Char} (h : Shows body.toList shown) :
    Shows (spanElement name body).toList shown := by
  rw [spanElement_eq]
  exact shows_element (by simp [IsName]) (isAttributes_classAttribute hname) h

theorem Flat.shows {classes : ClassMap} (hopen : classes.Avoids '<') (hclose : classes.Avoids '>')
    {markup shown : List Char} (h : Flat classes markup shown) : Shows markup shown := by
  induction h with
  | nil => exact .text []
  | bare text _ ih => exact .append (.text text) ih
  | @element category name markup shown text hclass _ ih =>
    have hname := not_isBracket_class hopen hclose hclass
    have hbody : Shows (escape (String.ofList text)).toList text := by
      rw [escape, String.toList_ofList, String.toList_ofList]
      exact .text text
    have helement := (shows_spanElement hname hbody).append ih
    rw [toList_spanElement, escape, String.toList_ofList, String.toList_ofList] at helement
    simpa only [List.cons_append, List.append_assoc, List.nil_append] using helement

theorem isDigit_of_mem_toString {n : Nat} {c : Char} (h : c ∈ (toString n).toList) : c.isDigit :=
  Nat.isDigit_of_mem_toDigits (by decide) (by decide) (Nat.toList_repr ▸ h)

theorem shows_number (n : Nat) : Shows (toString (n : Int)).toList (toString n).toList := by
  have hdigits : ∀ c ∈ (toString n).toList, isMarkup c = false := by
    intro c hc
    have hdigit := isDigit_of_mem_toString hc
    rw [Bool.eq_false_iff]
    intro hmarkup
    rcases markup_cases hmarkup with rfl | rfl | rfl <;> cases hdigit
  have htext := Shows.text (toString n).toList
  rwa [escapeList_eq_self hdigits] at htext

theorem shows_decorated (options : BlockOptions) {body : String} {shown : List Char} (n : Nat)
    (h : Shows body.toList shown) :
    Shows (options.decorated n (toString (n : Int)) body).toList
      (if options.numbered then (toString n).toList ++ shown else shown) := by
  have hnumbered : Shows
      (if options.numbered then spanElement "lineno" (toString (n : Int)) ++ body else body).toList
      (if options.numbered then (toString n).toList ++ shown else shown) := by
    split
    · rw [String.toList_append]
      exact (shows_spanElement (by simp [isBracket]) (shows_number n)).append h
    · exact h
  rw [BlockOptions.decorated]
  split
  · exact shows_spanElement (by simp [isBracket]) hnumbered
  · exact hnumbered

/-- The lines of a snippet are written as markup that shows each of them, after its number if that
is asked for. -/
theorem ofLines_shows {classes : ClassMap} (htotal : classes.Total) (hopen : classes.Avoids '<')
    (hclose : classes.Avoids '>') (options : BlockOptions) (config : Config)
    (lines : List (String × Nat)) :
    ∃ markups, ofLines classes (options.finish fun n ↦ some (toString n))
        (lines.map (fun p ↦ (Line.ofSource config p.1 p.2).value)) = .ok markups ∧
      List.Forall₂ (fun markup p ↦ Shows markup.toList
        (if options.numbered then (toString p.2).toList ++ p.1.toList else p.1.toList))
          markups lines := by
  refine ofLines_ok (List.forall₂_map_left_iff.mpr (List.forall₂_same.mpr fun p _ ↦ ?_))
  obtain ⟨body, hbody, hflat⟩ := ofLine_flat htotal (Line.partitions_ofSource config p.1 p.2)
  have hshown := shows_decorated options p.2 (hflat.shows hopen hclose)
  rw [← Line.ofSource_lineno config p.1 p.2] at hshown
  exact ⟨body, _, hbody, finish_eq_ok options _ body, hshown⟩

theorem shows_intercalate {α : Type} {text : α → List Char} {markups : List String} {lines : List α}
    (h : List.Forall₂ (fun markup line ↦ Shows markup.toList (text line)) markups lines) :
    Shows ("\n".intercalate markups).toList (['\n'].intercalate (lines.map text)) := by
  have hbreak : Shows ['\n'] ['\n'] := .text ['\n']
  rw [String.toList_intercalate]
  induction h with
  | nil => exact .text []
  | @cons markup line markups lines hline hlater ih =>
    cases hlater with
    | nil => simpa using hline
    | cons hnext hlater => simpa using hline.append (hbreak.append ih)

/-- A text with the number of each line in front of it. An empty text has no lines. -/
def numberLines (text : List Char) : List Char :=
  if text = [] then []
  else ['\n'].intercalate (((text.splitOn '\n').zipIdx 1).map
    (fun p ↦ (toString p.2).toList ++ p.1))

theorem intercalate_numbered (feed : Feed) :
    ['\n'].intercalate ((feed.lines.zipIdx 1).map (fun p ↦ (toString p.2).toList ++ p.1.toList)) =
      numberLines feed.source.toList := by
  by_cases hsource : feed.source = ""
  · rw [Feed.lines_of_empty hsource, hsource]
    rfl
  · have hne : feed.source.toList ≠ [] := by simpa using hsource
    rw [Feed.lines_of_ne hsource, numberLines, if_neg hne, List.zipIdx_map, List.map_map]
    congr 2
    funext p
    simp

theorem blockOf_shows {classes : ClassMap} (htotal : classes.Total) (hopen : classes.Avoids '<')
    (hclose : classes.Avoids '>') {options : BlockOptions} (hheader : options.header = none)
    (config : Config) (source : String) :
    let text := (Feed.ofSource config source).source.toList
    ∃ markup, blockOf classes options (Document.ofSource config source).value = .ok markup ∧
      Shows markup.toList (if options.numbered then numberLines text else text) := by
  intro text
  obtain ⟨markups, hmarkups, hshown⟩ :=
    ofLines_shows htotal hopen hclose options config ((Feed.ofSource config source).lines.zipIdx 1)
  have hjoined := shows_intercalate hshown
  rw [← Document.ofSource_lines] at hmarkups
  rw [blockOf, blockBy, hmarkups, hheader]
  refine ⟨_, rfl, shows_block options.language ?_⟩
  split
  · rename_i hnumbered
    simp only [hnumbered, reduceIte, intercalate_numbered] at hjoined
    exact hjoined
  · rename_i hnumbered
    have hlines :
        ['\n'].intercalate (((Feed.ofSource config source).lines.zipIdx 1).map
        (fun p ↦ p.1.toList)) = text := by
      have hfirst : (fun p : String × Nat ↦ p.1.toList) = String.toList ∘ Prod.fst := rfl
      have hsource := congrArg String.toList (Feed.intercalate_lines (Feed.ofSource config source))
      rw [String.toList_intercalate] at hsource
      rw [hfirst, ← List.map_map, List.zipIdx_map_fst]
      exact hsource
    simp only [hnumbered, Bool.false_eq_true, reduceIte, hlines] at hjoined
    exact hjoined

end Html

theorem Request.plainBlock_shows (request : Request) :
    Shows request.plainBlock.toList request.code.toList := by
  have hcode := Shows.text request.code.toList
  apply Html.shows_block
  rwa [escape, String.toList_ofList]

open Html

/-- Whatever the language, the classes and the lines to emphasise, a block shows the code, trimmed
only where the language is known and the configuration asks for it, and numbered only where the
language is known. -/
theorem BuiltIn.highlight_shows (h : BuiltIn) (active : Config) (request : Request)
    (htotal : h.classes.Total) (hopen : h.classes.Avoids '<') (hclose : h.classes.Avoids '>') :
    let config := h.config.getD active
    let known := hasGrammar request.language
    let text := if known && config.trimSnippet then Text.trim request.code else request.code
    let shown := if known && request.numbered then numberLines text.toList else text.toList
    ∃ markup, (h.highlight active request).value = .ok markup ∧ Nests markup.toList ∧
      withoutTags markup.toList = escapeList shown ∧
        unescapeList (withoutTags markup.toList) = shown := by
  intro config known text shown
  have hmarkup : ∃ markup, (h.highlight active request).value = .ok markup ∧
      Shows markup.toList shown := by
    by_cases hknown : known
    · have hheader : request.options.header = none := rfl
      obtain ⟨markup, hmarkup, hshown⟩ :=
        blockOf_shows htotal hopen hclose hheader config request.code
      refine ⟨markup, ?_, ?_⟩
      · rw [BuiltIn.highlight, if_pos hknown]
        exact hmarkup
      · simp only [shown, text, hknown, Bool.true_and]
        exact hshown
    · refine ⟨request.plainBlock, ?_, ?_⟩
      · rw [BuiltIn.highlight, if_neg hknown]
        rfl
      · simpa only [shown, text, hknown, Bool.false_and, Bool.false_eq_true, reduceIte]
          using request.plainBlock_shows
  obtain ⟨markup, hvalue, hshown⟩ := hmarkup
  refine ⟨markup, hvalue, hshown.nests, hshown.withoutTags, ?_⟩
  rw [hshown.withoutTags, unescapeList_escapeList]

theorem BuiltIn.highlight_shows_numbered :
    let classes : ClassMap :=
      fun category ↦ if category = .plain then some .bare else some (.classed "a\" &lt;\n")
    let request : Request := ⟨"<a>\n&lt;", some " TS ", some [2, -1], true⟩
    (classes.Total ∧ classes.Avoids '<' ∧ classes.Avoids '>') ∧
      ∃ markup, (BuiltIn.highlight ⟨none, classes⟩ {} request).value = .ok markup ∧
        Nests markup.toList ∧
        unescapeList (withoutTags markup.toList) = "1<a>\n2&lt;".toList := by
  intro classes request
  have htotal : classes.Total := total_oneClass _
  have hopen : classes.Avoids '<' := avoids_oneClass (by simp)
  have hclose : classes.Avoids '>' := avoids_oneClass (by simp)
  obtain ⟨markup, hvalue, hnests, -, hshown⟩ :=
    BuiltIn.highlight_shows ⟨none, classes⟩ {} request htotal hopen hclose
  refine ⟨⟨htotal, hopen, hclose⟩, markup, hvalue, hnests, hshown.trans ?_⟩
  decide +kernel

end ScriptSpans
