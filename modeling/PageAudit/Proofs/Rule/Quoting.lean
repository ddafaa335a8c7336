import PageAudit.Catalogue
import PageAudit.Proofs.Rule.Findings
import PageAudit.Proofs.Text.Line

/-!
# What findings quote

A finding names its element by tag and number and says what is wrong in a summary. Most summaries are
fixed texts, or quote numbers, colours and single-spaced names, and so are lines. Three things are quoted
as they stand in the document: the tag of the root, the placeholder of a form field, and the destination
of a link (`Page.Unbroken`).

* `lines_findingsIn`, `lines_firstFindings`: the findings of a scan are lines if the tags of its elements
  and the summaries of its test are.
* `lines_check`: the findings of every built-in rule are lines, wherever what the rule quotes has no
  line feed.
-/

namespace PageAudit

open Text

/-- The targets and the summary of a finding are lines. -/
structure Finding.Lines (f : Finding) : Prop where
  target : ∀ t ∈ f.target, IsLine t
  summary : IsLine f.failureSummary

theorem Locator.isLine_numbered {tag : String} (h : IsLine tag) (i : Nat) :
    IsLine (numbered tag i) := by
  unfold numbered
  rw [isLine_append, isLine_append, isLine_append]
  exact ⟨⟨⟨h, by decide⟩, isLine_toString _⟩, by decide⟩

theorem lines_finding {l : Locator} (hl : IsLine l.selector) {summary : String}
    (hs : IsLine summary) : (l.finding summary).Lines := by
  refine ⟨?_, hs⟩
  intro t ht
  rw [Locator.finding, List.mem_singleton] at ht
  exact ht ▸ hl

/-- A locator that names an element by its tag and number. -/
def NamesByNumber (locate : Element → Nat → Locator) : Prop :=
  ∀ e i, (locate e i).selector = Locator.numbered e.tag i

/-! ## Scans -/

section
variable {locate : Element → Nat → Locator} (hl : NamesByNumber locate) {test : Test}
  {xs : List Element} (htag : ∀ e ∈ xs, IsLine e.tag)
  (ht : ∀ e ∈ xs, ∀ i summary, test i e = some summary → IsLine summary)
include hl htag ht

theorem lines_findingsIn : ∀ f ∈ findingsIn locate test xs, f.Lines := by
  intro f hf
  obtain ⟨⟨e, i⟩, hx, hf⟩ := List.mem_filterMap.1 hf
  obtain ⟨summary, hs, rfl⟩ := Option.map_eq_some_iff.1 hf
  have he : e ∈ xs := List.fst_mem_of_mem_zipIdx hx
  refine lines_finding ?_ (ht e he i summary hs)
  rw [hl e i]
  exact Locator.isLine_numbered (htag e he) i

theorem lines_firstFindings (cap : Nat) : ∀ f ∈ firstFindings locate test cap 0 xs, f.Lines := by
  intro f hf
  rw [firstFindings_eq_take] at hf
  exact lines_findingsIn hl htag ht f (List.mem_of_mem_take hf)

end

theorem lines_singleton {e : Element} (htag : IsLine e.tag) {summary : String}
    (hs : IsLine summary) : ((Locator.singleton e).finding summary).Lines :=
  lines_finding htag hs

/-- Elements that are found by tags are named by one of them. -/
theorem tag_mem_of_mem_findAll {root e : Element} {tags : List String} (h : e ∈ root.findAll tags) :
    e.tag ∈ tags := by
  have := (List.mem_filter.1 h).2
  simpa using this

theorem isLine_tag_of_mem {root e : Element} {tags : List String} (htags : ∀ t ∈ tags, IsLine t)
    (h : e ∈ root.findAll tags) : IsLine e.tag :=
  htags e.tag (tag_mem_of_mem_findAll h)

namespace Rule

/-! ## Summaries -/

theorem isLine_of_accessibleName? {fallbacks : List String} {e : Element} {name : String}
    (h : e.accessibleName? fallbacks = some name) : IsLine name := by
  obtain ⟨candidate, -, rfl⟩ := List.mem_map.1 (List.mem_of_find?_eq_some h)
  exact isLine_normalize candidate

theorem isLine_nameless {name? : Element → Option String} {fixed : String} (hf : IsLine fixed)
    (e : Element) (i : Nat) (summary : String) (h : nameless name? fixed i e = some summary) :
    IsLine summary := by
  unfold nameless at h
  split at h
  · exact Option.some.inj h ▸ hf
  · cases h

theorem isLine_wordedAs {name? : Element → Option String} {phrases : List String}
    {quote : String → String} (hn : ∀ e name, name? e = some name → IsLine name)
    (hq : ∀ name, IsLine name → IsLine (quote name)) (e : Element) (i : Nat) (summary : String)
    (h : wordedAs name? phrases quote i e = some summary) : IsLine summary := by
  obtain ⟨name, hname, h⟩ := Option.bind_eq_some_iff.1 h
  split at h
  · exact Option.some.inj h ▸ hq name (hn e name hname)
  · cases h

theorem isLine_skipsLevel (xs : List Element) (e : Element) (i : Nat) (summary : String)
    (h : skipsLevel xs i e = some summary) : IsLine summary := by
  obtain ⟨before, -, h⟩ := Option.bind_eq_some_iff.1 h
  dsimp only at h
  split at h
  · rw [← Option.some.inj h, isLine_append, isLine_append, isLine_append]
    exact ⟨⟨⟨isLine_ofList.2 (by decide), isLine_toString _⟩, isLine_ofList.2 (by decide)⟩,
      isLine_toString _⟩
  · cases h

theorem isLine_hex (n width : Nat) : ∀ c ∈ Numeral.hex n width, c ≠ '\n' := by
  have digit : ∀ k < 16, Numeral.hexDigit k ≠ '\n' := by decide
  induction width with
  | zero => simp [Numeral.hex]
  | succ width ih =>
    intro c hc
    rw [Numeral.hex] at hc
    rcases List.mem_cons.1 hc with rfl | hc
    · exact digit _ (Nat.mod_lt _ (by decide))
    · exact ih c hc

theorem isLine_rgb (c : Rgb) : IsLine c.text := by
  unfold Rgb.text
  rw [isLine_ofList]
  intro h
  rcases List.mem_cons.1 h with h | h
  · cases h
  · obtain ⟨x, -, h⟩ := List.mem_flatMap.1 h
    exact isLine_hex _ _ '\n' h rfl

theorem isLine_contrastSummary (foreground background : Rgb) (size? : Option Float) (bold : Bool) :
    IsLine (contrastSummary foreground background size? bold) := by
  have text : ∀ cs : List Char, '\n' ∉ cs → IsLine (.ofList cs) := fun _ => isLine_ofList.2
  have required : ∀ r : Contrast.Required, IsLine r.text := fun r => by cases r <;> decide
  unfold contrastSummary
  simp only [isLine_append]
  refine ⟨⟨⟨⟨⟨⟨⟨⟨⟨⟨⟨⟨text _ (by decide), isLine_fixed 2 _⟩, text _ (by decide)⟩,
    isLine_rgb foreground⟩, text _ (by decide)⟩, isLine_rgb background⟩, text _ (by decide)⟩, ?size⟩,
    text _ (by decide)⟩, ?weight⟩, text _ (by decide)⟩, required _⟩, text _ (by decide)⟩
  case size =>
    cases size? with
    | none => exact text _ (by decide)
    | some size => exact isLine_append.2 ⟨isLine_shortestText size, by decide⟩
  case weight =>
    cases bold
    · exact text _ (by decide)
    · exact text _ (by decide)

theorem isLine_lowContrast (e : Element) (i : Nat) (summary : String)
    (h : lowContrast i e = some summary) : IsLine summary := by
  unfold lowContrast at h
  simp only [Option.bind_eq_bind, Option.bind_eq_some_iff] at h
  obtain ⟨colors, -, h⟩ := h
  split at h
  · cases h
  · exact Option.some.inj h ▸ isLine_contrastSummary _ _ _ _

theorem isLine_unlabeled (targets : List String) (e : Element) (i : Nat) (summary : String)
    (h : unlabeled targets i e = some summary) : IsLine summary := by
  unfold unlabeled at h
  split at h
  · cases h
  · exact Option.some.inj h ▸ isLine_ofList.2 (by decide)

/-- A summary that quotes the placeholder. -/
theorem isLine_labeledByPlaceholder {targets : List String} {e : Element}
    (hp : ∀ v, e.attr? "placeholder" = some v → IsLine v) (i : Nat) (summary : String)
    (h : labeledByPlaceholder targets i e = some summary) : IsLine summary := by
  obtain ⟨placeholder, hv, h⟩ := Option.bind_eq_some_iff.1 h
  split at h
  · cases h
  · rw [← Option.some.inj h, isLine_append, isLine_append]
    exact ⟨⟨isLine_ofList.2 (by decide), hp placeholder hv⟩, isLine_ofList.2 (by decide)⟩

/-- A summary that quotes the destination of another link. -/
theorem isLine_leadsElsewhere {known : List (String × String)} (hk : ∀ x ∈ known, IsLine x.2)
    (e : Element) (i : Nat) (summary : String) (h : leadsElsewhere known i e = some summary) :
    IsLine summary := by
  unfold leadsElsewhere at h
  simp only [Option.bind_eq_bind, Option.bind_eq_some_iff] at h
  obtain ⟨name, hname, ⟨_, first⟩, hfirst, h⟩ := h
  split at h
  · cases h
  · rw [← Option.some.inj h, isLine_append, isLine_append, isLine_append, isLine_append]
    exact ⟨⟨⟨⟨isLine_ofList.2 (by decide), isLine_of_accessibleName? hname⟩,
      isLine_ofList.2 (by decide)⟩, hk _ (List.mem_of_find?_eq_some hfirst)⟩,
      isLine_ofList.2 (by decide)⟩

end Rule

/-! ## Rules -/

/-- What the rules quote from a page as it stands there has no line feed. -/
structure Page.Unbroken (p : Page) (rules : List Rule) : Prop where
  root : IsLine p.root.tag
  placeholder : Rule.placeholderAsLabel ∈ rules → ∀ e ∈ Rule.formFields p,
    ∀ v, e.attr? "placeholder" = some v → IsLine v
  destination : Rule.linkSameTextDiffTarget ∈ rules → ∀ e ∈ Rule.links p,
    ∀ v, e.attr? "href" = some v → IsLine v

theorem Page.Unbroken.mono {p : Page} {rules rules' : List Rule} (h : p.Unbroken rules)
    (hsub : ∀ r ∈ rules', r ∈ rules) : p.Unbroken rules' where
  root := h.root
  placeholder := fun hr => h.placeholder (hsub _ hr)
  destination := fun hr => h.destination (hsub _ hr)

open Rule

section
variable {p : Page} {tags : List String} (htags : ∀ t ∈ tags, IsLine t)
include htags

theorem isLine_tag_of_mem_elements : ∀ e ∈ p.elements tags, IsLine e.tag := fun _ he =>
  isLine_tag_of_mem htags he

theorem isLine_tag_of_mem_filter (q : Element → Bool) :
    ∀ e ∈ (p.elements tags).filter q, IsLine e.tag := fun _ he =>
  isLine_tag_of_mem htags (List.mem_filter.1 he).1

end

theorem mem_of_firstByTag {p : Page} {tag : String} {e : Element}
    (h : p.document.firstByTag tag = some e) : e.tag = tag := by
  have hm : e ∈ p.document.elementsByTag [tag] := List.mem_of_mem_head? h
  unfold Document.elementsByTag at hm
  cases hr : p.document.root with
  | none => simp [hr] at hm
  | some root =>
    rw [hr] at hm
    simpa using tag_mem_of_mem_findAll hm

theorem lines_ofPage {finding? : Option Finding} (h : ∀ f, finding? = some f → f.Lines) :
    ∀ f ∈ (Evaluation.ofPage finding?).findings, f.Lines := fun f hf =>
  h f (Option.mem_toList.1 hf)

theorem lines_ofScan {xs : List Element} {fs : List Finding} (h : ∀ f ∈ fs, f.Lines) :
    ∀ f ∈ (Evaluation.ofScan xs fs).findings, f.Lines := h

/-- A test with a fixed summary is a choice between two fixed answers. -/
theorem lines_choice {locate : Element → Nat → Locator} (hl : NamesByNumber locate)
    {xs : List Element} (htag : ∀ e ∈ xs, IsLine e.tag) {yes no : Option String}
    (hyes : ∀ s, yes = some s → IsLine s) (hno : ∀ s, no = some s → IsLine s)
    (c : Nat → Element → Prop) [∀ i e, Decidable (c i e)] :
    ∀ f ∈ findingsIn locate (fun i e => if c i e then yes else no) xs, f.Lines := by
  refine lines_findingsIn hl htag fun e _ i summary h => ?_
  split at h
  · exact hyes summary h
  · exact hno summary h

/-- A rule about the page that finds fault with the root only. -/
theorem lines_ofRoot {p : Page} (hroot : IsLine p.root.tag) {summary : String}
    (hs : IsLine summary) (c : Prop) [Decidable c] :
    ∀ f ∈ (Evaluation.ofPage
      (if c then some ((Locator.singleton p.root).finding summary) else none)).findings,
      f.Lines := by
  refine lines_ofPage fun f hf => ?_
  split at hf
  · exact Option.some.inj hf ▸ lines_singleton hroot hs
  · cases hf

theorem lines_documentTitle {p : Page} (hroot : IsLine p.root.tag) :
    ∀ f ∈ (documentTitle.check p).findings, f.Lines := by
  refine lines_ofPage fun f hf => ?_
  split at hf
  · exact Option.some.inj hf ▸ lines_singleton hroot (isLine_ofList.2 (by decide))
  · next title htitle =>
    split at hf
    · exact Option.some.inj hf ▸ lines_singleton (mem_of_firstByTag htitle ▸ by decide)
        (isLine_ofList.2 (by decide))
    · cases hf

theorem lines_metaViewport {p : Page} (hroot : IsLine p.root.tag) :
    ∀ f ∈ (metaViewport.check p).findings, f.Lines := by
  have scope : IsLine (viewportScope p).tag := by
    unfold viewportScope
    cases hh : p.document.firstByTag "head" with
    | none => exact hroot
    | some head => exact (mem_of_firstByTag hh ▸ (by decide : IsLine "head"))
  refine lines_ofPage fun f hf => ?_
  split at hf
  · cases hf
  · exact Option.some.inj hf ▸ lines_singleton scope (isLine_ofList.2 (by decide))

/-- **The findings of a built-in rule are lines**, if what the rule quotes is. -/
theorem lines_check {p : Page} : ∀ r ∈ Catalogue.rules, p.Unbroken [r] →
    ∀ f ∈ (r.check p).findings, f.Lines := by
  have nth : NamesByNumber .nth := fun _ _ => rfl
  have table : NamesByNumber locateTable := fun _ _ => rfl
  have buttonTags : ∀ e ∈ buttons p, IsLine e.tag := isLine_tag_of_mem_filter (by decide) _
  have linkTags : ∀ e ∈ links p, IsLine e.tag := isLine_tag_of_mem_filter (by decide) _
  have fieldTags : ∀ e ∈ formFields p, IsLine e.tag := isLine_tag_of_mem_filter (by decide) _
  have titleNames : ∀ e ∈ p.elements ["h1"], IsLine e.tag := isLine_tag_of_mem_elements (by decide)
  have headingNames : ∀ e ∈ headings p, IsLine e.tag := isLine_tag_of_mem_elements (by decide)
  have tableNames : ∀ e ∈ tables p, IsLine e.tag := isLine_tag_of_mem_elements (by decide)
  simp only [Catalogue.rules, List.forall_mem_cons]
  refine ⟨?imageAlt, ?label, ?placeholderAsLabel, ?buttonName, ?buttonTextQuality, ?linkName,
    ?linkTextQuality, ?linkSameTextDiffTarget, ?colorContrast, ?documentTitle,
    ?pageHasHeadingOne, ?multipleH1, ?htmlHasLang, ?metaViewport, ?headingOrder,
    ?emptyHeading, ?tableHeaders, ?tableCaption, by simp⟩ <;> intro hu
  case imageAlt =>
    exact lines_findingsIn nth (isLine_tag_of_mem_elements (by decide))
      fun e _ => isLine_nameless (isLine_ofList.2 (by decide)) e
  case label =>
    exact lines_findingsIn nth fieldTags fun e _ => isLine_unlabeled _ e
  case placeholderAsLabel =>
    exact lines_findingsIn nth fieldTags fun e he =>
      isLine_labeledByPlaceholder (hu.placeholder (by simp) e he)
  case buttonName =>
    exact lines_findingsIn nth buttonTags fun e _ => isLine_nameless (isLine_ofList.2 (by decide)) e
  case buttonTextQuality =>
    refine lines_findingsIn nth buttonTags fun e _ =>
      isLine_wordedAs (fun _ _ => isLine_of_accessibleName?) (fun name hn => ?_) e
    rw [isLine_append, isLine_append]
    exact ⟨⟨isLine_ofList.2 (by decide), hn⟩, isLine_ofList.2 (by decide)⟩
  case linkName =>
    exact lines_findingsIn nth linkTags fun e _ => isLine_nameless (isLine_ofList.2 (by decide)) e
  case linkTextQuality =>
    refine lines_findingsIn nth linkTags fun e _ =>
      isLine_wordedAs (fun _ _ => isLine_of_accessibleName?) (fun name hn => ?_) e
    rw [isLine_append, isLine_append]
    exact ⟨⟨isLine_ofList.2 (by decide), hn⟩, isLine_ofList.2 (by decide)⟩
  case linkSameTextDiffTarget =>
    have known : ∀ x ∈ destinations p, IsLine x.2 := by
      intro x hx
      obtain ⟨e, he, hx⟩ := List.mem_filterMap.1 hx
      obtain ⟨name, -, rfl⟩ := Option.map_eq_some_iff.1 hx
      cases hv : e.attr? "href" with
      | none => exact (by decide : IsLine "")
      | some v => exact hu.destination (by simp) e he v hv
    exact lines_findingsIn nth linkTags fun e _ => isLine_leadsElsewhere known e
  case colorContrast =>
    exact lines_firstFindings nth (isLine_tag_of_mem_filter (by decide) _)
      (fun e _ => isLine_lowContrast e) _
  case documentTitle => exact lines_documentTitle hu.root
  case pageHasHeadingOne => exact lines_ofRoot hu.root (isLine_ofList.2 (by decide)) _
  case multipleH1 =>
    exact lines_ofScan (lines_choice nth titleNames (by decide) (by decide) _)
  case htmlHasLang =>
    refine lines_ofPage fun f hf => ?_
    split at hf
    · cases hf
    · exact Option.some.inj hf ▸ lines_singleton hu.root (isLine_ofList.2 (by decide))
  case metaViewport => exact lines_metaViewport hu.root
  case headingOrder =>
    exact lines_findingsIn nth headingNames fun e _ => isLine_skipsLevel (headings p) e
  case emptyHeading =>
    exact lines_ofScan (lines_choice nth headingNames (by decide) (by decide) _)
  case tableHeaders =>
    exact lines_ofScan (lines_choice table tableNames (by decide) (by decide) _)
  case tableCaption =>
    exact lines_ofScan (lines_choice table tableNames (by decide) (by decide) _)

end PageAudit
