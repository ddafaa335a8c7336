import PageAudit.Catalogue
import PageAudit.Auditor
import PageAudit.Proofs.Document.Contents
import PageAudit.Proofs.Document.Parsed
import PageAudit.Proofs.Rule.Findings

/-!
# Rules see the tree only

Two pages whose roots have the same tree (`Page.Alike`) are the same to every built-in rule, however
their documents number the nodes and whatever else they hold.

* `findingsIn_congr`, `firstFindings_congr`: so for a scan, if its elements, its test and its locator
  are the same up to the tree.
* `check_eq_of_alike`: so for each rule of the catalogue.
* `evaluate_of_rootTree`: documents with the same tree below the root have the same evaluations and
  the same reports.
-/

namespace PageAudit

open Element (Alike forall₂_alike_filter any_of_forall₂_alike)

/-! ## Elements -/

namespace Element.Alike

variable {e e' : Element} (h : e.Alike e')
include h

theorem style : e.style = e'.style := by
  unfold Element.style
  rw [h.attr?]

theorem inputType : e.inputType = e'.inputType := by
  unfold Element.inputType
  rw [h.attr?]

theorem accessibleName? (fallbacks : List String) :
    e.accessibleName? fallbacks = e'.accessibleName? fallbacks := by
  have hattr : e.attr? = e'.attr? := funext h.attr?
  unfold Element.accessibleName?
  rw [h.textContent, hattr]

theorem singleton_finding (summary : String) :
    (Locator.singleton e).finding summary = (Locator.singleton e').finding summary := by
  simp only [Locator.singleton, Locator.finding, h.tag, h.openingTag]

theorem nth_finding (i : Nat) (summary : String) :
    (Locator.nth e i).finding summary = (Locator.nth e' i).finding summary := by
  simp only [Locator.nth, Locator.finding, h.tag, h.outerHtml]

theorem nthExcerpt_finding (limit i : Nat) (summary : String) :
    (Locator.nthExcerpt limit e i).finding summary =
      (Locator.nthExcerpt limit e' i).finding summary := by
  simp only [Locator.nthExcerpt, Locator.finding, h.tag, h.excerpt]

end Element.Alike

/-- Lists that are alike have elements that are alike at a place, or both have none there. -/
theorem getElem?_of_forall₂ {xs ys : List Element} (h : List.Forall₂ Alike xs ys) (i : Nat) :
    (xs[i]? = none ∧ ys[i]? = none) ∨
      ∃ e e', xs[i]? = some e ∧ ys[i]? = some e' ∧ Alike e e' := by
  induction h generalizing i with
  | nil => exact .inl ⟨rfl, rfl⟩
  | @cons e e' _ _ he _ ih =>
    cases i with
    | zero => exact .inr ⟨e, e', rfl, rfl, he⟩
    | succ i => exact ih i

/-- Tests that agree on elements with the same tree. -/
def Test.Agree (test test' : Test) : Prop :=
  ∀ i e e', Alike e e' → test i e = test' i e'

/-- A locator whose findings show the tree only. -/
def ShowsTree (locate : Element → Nat → Locator) : Prop :=
  ∀ e e', Alike e e' → ∀ i summary, (locate e i).finding summary = (locate e' i).finding summary

theorem showsTree_nth : ShowsTree .nth := fun _ _ h => h.nth_finding

theorem showsTree_locateTable : ShowsTree Rule.locateTable := fun _ _ h =>
  h.nthExcerpt_finding Locator.largeExcerpt

/-! ## Scans -/

section
variable {locate : Element → Nat → Locator} (hl : ShowsTree locate) {test test' : Test}
  (ht : test.Agree test') {xs ys : List Element} (h : List.Forall₂ Alike xs ys)
include hl ht h

theorem zipIdx_filterMap_congr (i : Nat) :
    ((xs.zipIdx i).filterMap fun (e, i) =>
        (test i e).map fun summary => (locate e i).finding summary) =
      (ys.zipIdx i).filterMap fun (e, i) =>
        (test' i e).map fun summary => (locate e i).finding summary := by
  induction h generalizing i with
  | nil => rfl
  | @cons e e' xs ys he _ ih =>
    have hfinding : (locate e i).finding = (locate e' i).finding := funext fun s => hl e e' he i s
    have hone : (test i e).map (locate e i).finding = (test' i e').map (locate e' i).finding := by
      rw [ht i e e' he, hfinding]
    have hrest := ih (i + 1)
    simp only [List.zipIdx_cons, List.filterMap_cons] at hone hrest ⊢
    rw [hone, hrest]

theorem findingsIn_congr : findingsIn locate test xs = findingsIn locate test' ys :=
  zipIdx_filterMap_congr hl ht h 0

theorem firstFindings_congr (cap : Nat) :
    firstFindings locate test cap 0 xs = firstFindings locate test' cap 0 ys := by
  rw [firstFindings_eq_take, firstFindings_eq_take]
  exact congrArg (List.take cap) (zipIdx_filterMap_congr hl ht h 0)

end

theorem ofScan_congr {xs ys : List Element} (h : List.Forall₂ Alike xs ys) {fs fs' : List Finding}
    (hf : fs = fs') : Evaluation.ofScan xs fs = Evaluation.ofScan ys fs' := by
  unfold Evaluation.ofScan
  rw [isEmpty_of_forall₂ h, hf]

/-- A rule about the elements of a list, each of which it tests. -/
theorem scan_congr {locate : Element → Nat → Locator} (hl : ShowsTree locate) {test test' : Test}
    (ht : test.Agree test') {xs ys : List Element} (h : List.Forall₂ Alike xs ys) :
    Evaluation.ofScan xs (findingsIn locate test xs) =
      Evaluation.ofScan ys (findingsIn locate test' ys) :=
  ofScan_congr h (findingsIn_congr hl ht h)

/-! ## Pages -/

/-- Two pages whose roots have the same tree, under the same limits. -/
structure Page.Alike (p p' : Page) : Prop where
  ofRoot : p.document.root = some p.root
  ofRoot' : p'.document.root = some p'.root
  root : p.root.Alike p'.root
  limits : p.limits = p'.limits

namespace Page.Alike

variable {p p' : Page} (h : p.Alike p')
include h

theorem elements (tags : List String) :
    List.Forall₂ Element.Alike (p.elements tags) (p'.elements tags) :=
  h.root.findAll tags

theorem elementsWhere (tags : List String) {q q' : Element → Bool}
    (hq : ∀ e e', Element.Alike e e' → q e = q' e') :
    List.Forall₂ Element.Alike ((p.elements tags).filter q) ((p'.elements tags).filter q') :=
  forall₂_alike_filter hq (h.elements tags)

theorem firstByTag (tag : String) :
    (p.document.firstByTag tag = none ∧ p'.document.firstByTag tag = none) ∨
      ∃ e e', p.document.firstByTag tag = some e ∧ p'.document.firstByTag tag = some e' ∧
        Element.Alike e e' := by
  have hfirst := getElem?_of_forall₂ (h.root.findAll [tag]) 0
  simpa only [Document.firstByTag, Document.elementsByTag, h.ofRoot, h.ofRoot', Option.map_some,
    Option.getD_some, List.head?_eq_getElem?] using hfirst

end Page.Alike

/-! ## Lists and tests of the rules -/

namespace Rule

theorem agree_nameless {name? name?' : Element → Option String}
    (hn : ∀ e e', Alike e e' → name? e = name?' e') (summary : String) :
    (nameless name? summary).Agree (nameless name?' summary) := fun i e e' he => by
  unfold nameless
  rw [hn e e' he]

theorem agree_wordedAs {name? : Element → Option String}
    (hn : ∀ e e', Alike e e' → name? e = name? e') (phrases : List String)
    (summary : String → String) :
    (wordedAs name? phrases summary).Agree (wordedAs name? phrases summary) := fun i e e' he => by
  unfold wordedAs
  rw [hn e e' he]

theorem buttonName?_congr (e e' : Element) (he : Alike e e') : buttonName? e = buttonName? e' :=
  he.accessibleName? _

theorem linkName?_congr (e e' : Element) (he : Alike e e') : linkName? e = linkName? e' :=
  he.accessibleName? _

theorem agree_skipsLevel {xs ys : List Element} (h : List.Forall₂ Alike xs ys) :
    (skipsLevel xs).Agree (skipsLevel ys) := fun i e e' he => by
  have level_congr : ∀ e e', Alike e e' → level e = level e' := fun e e' he => by
    unfold level
    rw [he.tag]
  have hbefore : (before? xs i = none ∧ before? ys i = none) ∨
      ∃ x y, before? xs i = some x ∧ before? ys i = some y ∧ Alike x y := by
    cases i with
    | zero => exact .inl ⟨rfl, rfl⟩
    | succ i => exact getElem?_of_forall₂ h i
  unfold skipsLevel
  rw [level_congr e e' he]
  rcases hbefore with ⟨hx, hy⟩ | ⟨x, y, hx, hy, hxy⟩
  · rw [hx, hy]
  · rw [hx, hy]
    simp only [Option.bind_eq_bind, Option.bind_some, level_congr x y hxy]

theorem agree_lowContrast : Test.Agree lowContrast lowContrast := fun i e e' he => by
  unfold lowContrast
  rw [he.style]

theorem agree_leadsElsewhere (known : List (String × String)) :
    (leadsElsewhere known).Agree (leadsElsewhere known) := fun i e e' he => by
  unfold leadsElsewhere
  rw [linkName?_congr e e' he, he.attr?]

theorem isLabeled_congr (targets : List String) (e e' : Element) (he : Alike e e') :
    isLabeled targets e = isLabeled targets e' := by
  unfold isLabeled
  rw [he.attr?, he.hasAttr, he.hasAttr]

theorem agree_unlabeled (targets : List String) :
    (unlabeled targets).Agree (unlabeled targets) := fun i e e' he => by
  unfold unlabeled
  rw [isLabeled_congr targets e e' he]

theorem agree_labeledByPlaceholder (targets : List String) :
    (labeledByPlaceholder targets).Agree (labeledByPlaceholder targets) := fun i e e' he => by
  unfold labeledByPlaceholder
  rw [isLabeled_congr targets e e' he, he.attr?]

section
variable {p p' : Page} (h : p.Alike p')
include h

theorem buttons_alike : List.Forall₂ Alike (buttons p) (buttons p') :=
  h.elementsWhere _ fun e e' he => by rw [he.tag, he.inputType]

theorem links_alike : List.Forall₂ Alike (links p) (links p') :=
  h.elementsWhere _ fun _ _ he => he.hasAttr "href"

theorem formFields_alike : List.Forall₂ Alike (formFields p) (formFields p') :=
  h.elementsWhere _ fun e e' he => by rw [he.tag, he.inputType]

theorem contrastCandidates_alike :
    List.Forall₂ Alike (contrastCandidates p) (contrastCandidates p') :=
  h.elementsWhere _ fun e e' he => by rw [he.textContent, he.style]

/-- Texts read off elements that are alike are the same. -/
theorem labelTargets_eq : labelTargets p = labelTargets p' := by
  unfold labelTargets
  refine List.forall₂_eq_eq_eq ▸ List.rel_filterMap (fun e e' he => ?_) (h.elements ["label"])
  rw [he.attr?]
  cases e'.attr? "for" with
  | none => exact .none
  | some target => exact .some rfl

theorem destinations_eq : destinations p = destinations p' := by
  unfold destinations
  refine List.forall₂_eq_eq_eq ▸ List.rel_filterMap (fun e e' he => ?_) (links_alike h)
  rw [linkName?_congr e e' he, he.attr?]
  cases linkName? e' with
  | none => exact .none
  | some name => exact .some rfl

theorem viewportScope_alike : (viewportScope p).Alike (viewportScope p') := by
  unfold viewportScope
  rcases h.firstByTag "head" with ⟨hx, hy⟩ | ⟨x, y, hx, hy, hxy⟩
  · rw [hx, hy]
    exact h.root
  · rw [hx, hy]
    exact hxy

end

/-! ## Rules -/

theorem documentTitle_congr {p p' : Page} (h : p.Alike p') :
    documentTitle.check p = documentTitle.check p' := by
  refine congrArg Evaluation.ofPage ?_
  rcases h.firstByTag "title" with ⟨hx, hy⟩ | ⟨x, y, hx, hy, hxy⟩
  · rw [hx, hy]
    simp only [h.root.singleton_finding]
  · rw [hx, hy]
    simp only [hxy.textContent, hxy.singleton_finding]

theorem metaViewport_congr {p p' : Page} (h : p.Alike p') :
    metaViewport.check p = metaViewport.check p' := by
  have hscope := viewportScope_alike h
  have hany : ((viewportScope p).findAll ["meta"]).any isViewport =
      ((viewportScope p').findAll ["meta"]).any isViewport :=
    any_of_forall₂_alike (fun e e' he => by unfold isViewport; rw [he.attr?])
      (hscope.findAll ["meta"])
  refine congrArg Evaluation.ofPage ?_
  rw [hany, hscope.singleton_finding]

end Rule

open Rule

/-- **Each rule of the catalogue** evaluates pages with the same tree the same. -/
theorem check_eq_of_alike {p p' : Page} (h : p.Alike p') :
    ∀ r ∈ Catalogue.rules, r.check p = r.check p' := by
  have text : ∀ e e', Alike e e' → e.textContent = e'.textContent := fun _ _ he => he.textContent
  have named : ∀ (name? : Element → Option String) (xs : Page → List Element),
      (∀ e e', Alike e e' → name? e = name? e') → List.Forall₂ Alike (xs p) (xs p') →
      List.Forall₂ Alike ((xs p).filter fun e => (name? e).isSome)
        ((xs p').filter fun e => (name? e).isSome) := fun name? xs hn hx =>
    forall₂_alike_filter (fun e e' he => by rw [hn e e' he]) hx
  simp only [Catalogue.rules, List.forall_mem_cons]
  refine ⟨?imageAlt, ?label, ?placeholderAsLabel, ?buttonName, ?buttonTextQuality, ?linkName,
    ?linkTextQuality, ?linkSameTextDiffTarget, ?colorContrast, documentTitle_congr h,
    ?pageHasHeadingOne, ?multipleH1, ?htmlHasLang, metaViewport_congr h, ?headingOrder,
    ?emptyHeading, ?tableHeaders, ?tableCaption, by simp⟩
  case imageAlt =>
    exact scan_congr showsTree_nth (agree_nameless (fun _ _ he => he.attr? "alt") _)
      (h.elements ["img"])
  case label =>
    have ht := agree_unlabeled (labelTargets p)
    exact scan_congr showsTree_nth (labelTargets_eq h ▸ ht) (formFields_alike h)
  case placeholderAsLabel =>
    have ht := agree_labeledByPlaceholder (labelTargets p)
    exact ofScan_congr (forall₂_alike_filter (fun _ _ he => he.hasAttr _) (formFields_alike h))
      (findingsIn_congr showsTree_nth (labelTargets_eq h ▸ ht) (formFields_alike h))
  case buttonName =>
    exact scan_congr showsTree_nth (agree_nameless buttonName?_congr _) (buttons_alike h)
  case buttonTextQuality =>
    exact ofScan_congr (named buttonName? buttons buttonName?_congr (buttons_alike h))
      (findingsIn_congr showsTree_nth (agree_wordedAs buttonName?_congr _ _) (buttons_alike h))
  case linkName =>
    exact scan_congr showsTree_nth (agree_nameless linkName?_congr _) (links_alike h)
  case linkTextQuality =>
    exact ofScan_congr (named linkName? links linkName?_congr (links_alike h))
      (findingsIn_congr showsTree_nth (agree_wordedAs linkName?_congr _ _) (links_alike h))
  case linkSameTextDiffTarget =>
    have ht := agree_leadsElsewhere (destinations p)
    exact ofScan_congr (named linkName? links linkName?_congr (links_alike h))
      (findingsIn_congr showsTree_nth (destinations_eq h ▸ ht) (links_alike h))
  case colorContrast =>
    have hx := contrastCandidates_alike h
    refine ofScan_congr hx ?_
    rw [h.limits]
    exact firstFindings_congr showsTree_nth agree_lowContrast hx _
  case pageHasHeadingOne =>
    refine congrArg Evaluation.ofPage ?_
    rw [isEmpty_of_forall₂ (h.elements ["h1"]), h.root.singleton_finding]
  case multipleH1 =>
    exact scan_congr showsTree_nth (by intro i e e' _; rfl) (h.elements ["h1"])
  case htmlHasLang =>
    refine congrArg Evaluation.ofPage ?_
    rw [h.root.hasAttr, h.root.singleton_finding]
  case headingOrder =>
    have hx := h.elements headingTags
    exact scan_congr showsTree_nth (agree_skipsLevel hx) hx
  case emptyHeading =>
    exact scan_congr showsTree_nth (fun i e e' he => by rw [text e e' he]) (h.elements headingTags)
  case tableHeaders =>
    refine scan_congr showsTree_locateTable (fun i e e' he => ?_) (h.elements ["table"])
    rw [isEmpty_of_forall₂ (he.findAll ["th"])]
  case tableCaption =>
    refine scan_congr showsTree_locateTable (fun i e e' he => ?_) (h.elements ["table"])
    rw [he.hasChild]

/-! ## Documents -/

/-- Documents with the same tree below the root have pages that are alike, or no pages. -/
theorem Page.alike_of_rootTree {d d' : Document} (h : d.Sound) (h' : d'.Sound)
    (ht : d.rootTree? = d'.rootTree?) (limits : Limits) :
    (Page.ofDocument? d limits = none ∧ Page.ofDocument? d' limits = none) ∨
      ∃ p p', Page.ofDocument? d limits = some p ∧ Page.ofDocument? d' limits = some p' ∧
        p.Alike p' := by
  unfold Document.rootTree? at ht
  cases hr : d.root? with
  | none =>
    have hr' : d'.root? = none := by
      rw [hr, Option.map_none, eq_comm, Option.map_eq_none_iff] at ht
      exact ht
    exact .inl ⟨by simp [ofDocument?, Document.root, hr], by simp [ofDocument?, Document.root, hr']⟩
  | some r =>
    rw [hr, Option.map_some, eq_comm, Option.map_eq_some_iff] at ht
    obtain ⟨r', hr', htree⟩ := ht
    have root : d.root = some ⟨d, r⟩ := by rw [Document.root, hr, Option.map_some]
    have root' : d'.root = some ⟨d', r'⟩ := by rw [Document.root, hr', Option.map_some]
    refine .inr ⟨⟨d, ⟨d, r⟩, limits⟩, ⟨d', ⟨d', r'⟩, limits⟩, ?_, ?_, root, root', ?_, rfl⟩
    · rw [ofDocument?, root, Option.map_some]
    · rw [ofDocument?, root', Option.map_some]
    · exact ⟨⟨h, h.root r hr⟩, ⟨h', h'.root r' hr'⟩, htree.symm⟩

/-- An auditor of rules that see the tree only gives alike pages the same report and the same log. -/
theorem Auditor.audit_of_alike {a : Auditor} {p p' : Page}
    (h : ∀ r ∈ a.rules, r.check p = r.check p') (source : String) (time : Timestamp) :
    a.report p source time = a.report p' source time ∧
      ∀ report, a.log p report = a.log p' report := by
  have outcome : ∀ r ∈ a.rules, a.outcome p r = a.outcome p' r := fun r hr => by
    unfold Auditor.outcome
    rw [h r hr]
  constructor
  · unfold Auditor.report
    rw [List.map_congr_left outcome]
  · intro report
    unfold Auditor.log
    rw [List.filterMap_congr fun r hr => by rw [outcome r hr]]

/-- **A report depends on the tree below the root only.** Every document is sound, whether steps or a
parser have built it. If two sound documents have the same tree below the root, every built-in rule
evaluates them the same under every limits, and every auditor of built-in rules gives the same answer
for both, with the same report and the same log. -/
theorem evaluate_of_rootTree :
    (∀ steps, (Document.ofSteps steps).Sound) ∧ (∀ n, (Document.ofParsed n).Sound) ∧
    ∀ d d' : Document, d.Sound → d'.Sound → d.rootTree? = d'.rootTree? →
      (∀ limits, ∀ r ∈ Catalogue.rules,
        (Page.ofDocument? d limits).map r.check = (Page.ofDocument? d' limits).map r.check) ∧
      ∀ a : Auditor, (∀ r ∈ a.rules, r ∈ Catalogue.rules) →
        ∀ (source : String) (time : Timestamp),
          a.audit d source time = a.audit d' source time ∧
            a.evaluate d source time = a.evaluate d' source time := by
  refine ⟨fun steps => (Build.ok_run steps).sound, Document.sound_ofParsed, ?_⟩
  intro d d' h h' ht
  refine ⟨fun limits r hr => ?_, fun a ha source time => ?_⟩
  · rcases Page.alike_of_rootTree h h' ht limits with ⟨hp, hp'⟩ | ⟨p, p', hp, hp', hpp⟩
    · rw [hp, hp']
    · rw [hp, hp', Option.map_some, Option.map_some, check_eq_of_alike hpp r hr]
  · have audits : a.audit d source time = a.audit d' source time := by
      unfold Auditor.audit
      rcases Page.alike_of_rootTree h h' ht a.config.limits with ⟨hp, hp'⟩ | ⟨p, p', hp, hp', hpp⟩
      · rw [hp, hp']
      · obtain ⟨report, log⟩ := Auditor.audit_of_alike (a := a)
          (fun r hr => check_eq_of_alike hpp r (ha r hr)) source time
        rw [hp, hp']
        simp only [report, log]
    refine ⟨audits, ?_⟩
    unfold Auditor.evaluate
    rw [audits]

/-- A page with an image and a heading. -/
def gallery : Document :=
  .ofSteps [.root "html" [], .element 0 "img" [], .element 0 "h2" [], .text 2 "Views"]

/-- The same page below a second root, with text and an image left on the first. -/
def galleryRebuilt : Document :=
  .ofSteps [.root "div" [], .text 0 "Views", .root "HTML" [], .element 1 "img" [],
    .element 0 "img" [], .element 1 "h2" [], .text 4 "Views"]

theorem evaluate_of_rootTree_gallery :
    gallery.rootTree? = galleryRebuilt.rootTree? ∧
    (Page.ofDocument? gallery {}).map imageAlt.check =
      (Page.ofDocument? galleryRebuilt {}).map imageAlt.check ∧
    (⟨Catalogue.rules, {}⟩ : Auditor).evaluate gallery "page" default =
      (⟨Catalogue.rules, {}⟩ : Auditor).evaluate galleryRebuilt "page" default := by
  have ht : gallery.rootTree? = galleryRebuilt.rootTree? := by decide +kernel
  obtain ⟨sound, -, same⟩ := evaluate_of_rootTree
  obtain ⟨checks, reports⟩ := same gallery galleryRebuilt (sound _) (sound _) ht
  exact ⟨ht, checks {} imageAlt (by simp [Catalogue.rules]),
    (reports ⟨Catalogue.rules, {}⟩ (fun _ hr => hr) "page" default).2⟩

end PageAudit
