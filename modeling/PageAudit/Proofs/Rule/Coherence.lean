import PageAudit.Catalogue
import PageAudit.Document.Build
import PageAudit.Proofs.Rule.Findings
import PageAudit.Proofs.Audit.Verdict

/-!
# The evaluations of the built-in rules

The rules of the catalogue are the four `pageRules`, which are about the page as a whole, and the
fourteen `numberedRules`, each of which goes through a numbered list.

* `coherent_of_mem_rules`: no rule finds anything where it does not apply.
* `pageRules_ofPage`: a rule about the page applies and finds one thing at most.
* `numberedRules_inOrder`: the findings of the others show elements of their lists at rising numbers,
  and the lists are in document order (`numberedRules_sublist`).
* `rules_coherent`: all of these, and what follows for the report of all the rules.
-/

namespace PageAudit

namespace Evaluation

/-- Nothing is found where the rule does not apply. -/
def Coherent (e : Evaluation) : Prop := e.applicable = false → e.findings = []

theorem coherent_ofPage (finding? : Option Finding) : (ofPage finding?).Coherent := nofun

theorem coherent_ofScan {scanned : List Element} {findings : List Finding}
    (h : scanned = [] → findings = []) : (ofScan scanned findings).Coherent := fun ha =>
  h (by simpa [ofScan] using ha)

theorem coherent_findingsIn (locate : Element → Nat → Locator) (test : Test) (xs : List Element) :
    (ofScan xs (findingsIn locate test xs)).Coherent :=
  coherent_ofScan fun h => by subst h; rfl

/-- A rule that looks at some elements of its list only, and flags none but these. -/
theorem coherent_filter {locate : Element → Nat → Locator} {test : Test} {q : Element → Bool}
    (hq : ∀ i e summary, test i e = some summary → q e = true) (xs : List Element) :
    (ofScan (xs.filter q) (findingsIn locate test xs)).Coherent :=
  coherent_ofScan fun h => findingsIn_eq_nil hq h

end Evaluation

namespace Catalogue

open Rule

/-- The rules about the page as a whole. -/
def pageRules : List Rule := [.documentTitle, .htmlHasLang, .metaViewport, .pageHasHeadingOne]

/-- A rule about elements, the list by which it numbers them, and the markup that it shows. -/
structure Numbered where
  rule : Rule
  list : Page → List Element
  html : Element → String := Element.outerHtml

def numberedRules : List Numbered :=
  [{ rule := .imageAlt, list := images },
    { rule := .label, list := formFields },
    { rule := .placeholderAsLabel, list := formFields },
    { rule := .buttonName, list := buttons },
    { rule := .buttonTextQuality, list := buttons },
    { rule := .linkName, list := links },
    { rule := .linkTextQuality, list := links },
    { rule := .linkSameTextDiffTarget, list := links },
    { rule := .colorContrast, list := contrastCandidates },
    { rule := .multipleH1, list := (·.elements ["h1"]) },
    { rule := .headingOrder, list := headings },
    { rule := .emptyHeading, list := headings },
    { rule := .tableHeaders, list := tables, html := (·.excerpt 200) },
    { rule := .tableCaption, list := tables, html := (·.excerpt 200) }]

theorem mem_rules_iff {r : Rule} :
    r ∈ rules ↔ r ∈ pageRules ∨ r ∈ numberedRules.map (·.rule) := by
  simp only [rules, pageRules, numberedRules, List.map_cons, List.map_nil, List.mem_cons,
    List.not_mem_nil, or_false]
  constructor
  · rintro (h | h | h | h | h | h | h | h | h | h | h | h | h | h | h | h | h | h) <;> simp [h]
  · rintro ((h | h | h | h) | (h | h | h | h | h | h | h | h | h | h | h | h | h | h)) <;> simp [h]

/-! ## Each rule by itself -/

theorem coherent_wordedAs (name? : Element → Option String) (phrases : List String)
    (summary : String → String) (xs : List Element) :
    (Evaluation.ofScan (xs.filter fun e => (name? e).isSome)
      (findingsIn .nth (wordedAs name? phrases summary) xs)).Coherent := by
  refine Evaluation.coherent_filter (fun i e s h => ?_) xs
  obtain ⟨name, hn, -⟩ := Option.bind_eq_some_iff.1 h
  simp [hn]

theorem coherent_placeholderAsLabel (p : Page) : (placeholderAsLabel.check p).Coherent := by
  refine Evaluation.coherent_filter (fun i e s h => ?_) (formFields p)
  unfold labeledByPlaceholder at h
  obtain ⟨placeholder, hp, -⟩ := Option.bind_eq_some_iff.1 h
  simp [Element.hasAttr, hp]

theorem coherent_linkSameTextDiffTarget (p : Page) :
    (linkSameTextDiffTarget.check p).Coherent := by
  refine Evaluation.coherent_filter (fun i e s h => ?_) (links p)
  unfold leadsElsewhere at h
  obtain ⟨name, hn, -⟩ := Option.bind_eq_some_iff.1 h
  simp [hn]

theorem coherent_colorContrast (p : Page) : (colorContrast.check p).Coherent :=
  Evaluation.coherent_ofScan fun h => by rw [h]; cases p.limits.maxContrastFindings <;> rfl

theorem coherent_of_mem_rules (p : Page) : ∀ r ∈ rules, (r.check p).Coherent := by
  have page := fun f? => Evaluation.coherent_ofPage f?
  have nth := Evaluation.coherent_findingsIn .nth
  have table := Evaluation.coherent_findingsIn locateTable
  simp only [rules, List.forall_mem_cons]
  refine ⟨?imageAlt, ?label, coherent_placeholderAsLabel p, ?buttonName, ?buttonTextQuality,
    ?linkName, ?linkTextQuality, coherent_linkSameTextDiffTarget p, coherent_colorContrast p,
    page _, page _, ?multipleH1, page _, page _, ?headingOrder, ?emptyHeading, ?tableHeaders,
    ?tableCaption, by simp⟩
  case imageAlt => exact nth _ (images p)
  case label => exact nth _ (formFields p)
  case buttonName => exact nth _ (buttons p)
  case buttonTextQuality => exact coherent_wordedAs _ _ _ (buttons p)
  case linkName => exact nth _ (links p)
  case linkTextQuality => exact coherent_wordedAs _ _ _ (links p)
  case multipleH1 => exact nth _ (p.elements ["h1"])
  case headingOrder => exact nth _ (headings p)
  case emptyHeading => exact nth _ (headings p)
  case tableHeaders => exact table _ (tables p)
  case tableCaption => exact table _ (tables p)

theorem pageRules_ofPage (p : Page) :
    ∀ r ∈ pageRules, (r.check p).applicable = true ∧ (r.check p).findings.length ≤ 1 := by
  have h : ∀ finding? : Option Finding, (Evaluation.ofPage finding?).applicable = true ∧
      (Evaluation.ofPage finding?).findings.length ≤ 1 := by
    intro finding?
    cases finding? <;> simp [Evaluation.ofPage]
  simp only [pageRules, List.forall_mem_cons]
  exact ⟨h _, h _, h _, h _, by simp⟩

/-- The findings of a rule with a numbered list show elements of the list at rising numbers. -/
theorem numberedRules_inOrder (p : Page) :
    ∀ n ∈ numberedRules, InOrder n.html (n.list p) (n.rule.check p).findings := by
  have nth : ∀ scanned test xs, InOrder Element.outerHtml xs
      (Evaluation.ofScan scanned (findingsIn .nth test xs)).findings := fun _ test xs =>
    inOrder_findingsIn (fun _ _ => rfl) test xs
  have table : ∀ scanned test xs, InOrder (·.excerpt 200) xs
      (Evaluation.ofScan scanned (findingsIn locateTable test xs)).findings := fun _ test xs =>
    inOrder_findingsIn (fun _ _ => rfl) test xs
  have contrast : InOrder Element.outerHtml (contrastCandidates p)
      (colorContrast.check p).findings := inOrder_firstFindings (fun _ _ => rfl) _ _ _
  simp only [numberedRules, List.forall_mem_cons]
  exact ⟨nth _ _ _, nth _ _ _, nth _ _ _, nth _ _ _, nth _ _ _, nth _ _ _, nth _ _ _, nth _ _ _,
    contrast, nth _ _ _, nth _ _ _, nth _ _ _, table _ _ _, table _ _ _, by simp⟩

/-- The numbered lists are in document order. -/
theorem numberedRules_sublist (p : Page) :
    ∀ n ∈ numberedRules, (n.list p).Sublist p.root.descendants := by
  have elements : ∀ tags, (p.elements tags).Sublist p.root.descendants := fun tags =>
    List.filter_sublist
  have filtered : ∀ tags (q : Element → Bool),
      ((p.elements tags).filter q).Sublist p.root.descendants := fun tags q =>
    List.filter_sublist.trans (elements tags)
  simp only [numberedRules, List.forall_mem_cons]
  exact ⟨elements _, filtered _ _, filtered _ _, filtered _ _, filtered _ _, filtered _ _,
    filtered _ _, filtered _ _, filtered _ _, elements _, elements _, elements _, elements _,
    elements _, by simp⟩

/-! ## The report of all the rules -/

theorem nodup_map_id_rules : (rules.map (·.id)).Nodup := by decide

/-- A rule that reports passes reports violations too. -/
theorem surfaces_of_reportsPass : ∀ r ∈ rules, r.reportsPass = true → r.surfaces = true := by
  simp [rules, imageAlt, label, placeholderAsLabel, buttonName, buttonTextQuality, linkName,
    linkTextQuality, linkSameTextDiffTarget, colorContrast, documentTitle, pageHasHeadingOne,
    multipleH1, htmlHasLang, metaViewport, headingOrder, emptyHeading, tableHeaders, tableCaption]

/-- Of the rules that run, each that applies and reports passes has one entry in the report. -/
theorem count_entries {c : Config} {p : Page} {report : Report}
    (h : Auditor.Verdict rules c p report) {r : Rule} (hr : r ∈ rules)
    (he : c.isEnabled r.id = true) (hp : r.reportsPass = true)
    (ha : (r.check p).applicable = true) :
    (report.violations.map (·.id) ++ report.passes.map (·.id)).count r.id = 1 := by
  rw [List.count_append]
  by_cases hf : (r.check p).findings = []
  · have hpass : Auditor.Passes c p r := ⟨he, ha, hf, hp⟩
    have hn : r.id ∉ report.violations.map (·.id) := fun hm =>
      ((h.violated r hr).1 hm).not_passes hpass
    rw [List.count_eq_zero_of_not_mem hn,
      List.count_eq_one_of_mem h.passes_nodup ((h.passed r hr).2 hpass)]
  · have hv : Auditor.Violates c p r := ⟨he, ha, hf, surfaces_of_reportsPass r hr hp⟩
    have hn : r.id ∉ report.passes.map (·.id) := fun hm => hv.not_passes ((h.passed r hr).1 hm)
    rw [List.count_eq_zero_of_not_mem hn,
      List.count_eq_one_of_mem h.violations_nodup ((h.violated r hr).2 hv)]

theorem elements_eq_of_page {d : Document} {limits : Limits} {p : Page}
    (hp : Page.ofDocument? d limits = some p) : d.elements = p.root.descendants := by
  obtain ⟨root, hr, rfl⟩ := Option.map_eq_some_iff.1 hp
  simp [Document.elements, hr]

/-- **The evaluations of the catalogue on a page with a root.** Nothing is found where a rule does not
apply. A rule about the page applies and finds one thing at most; any other shows elements of its
list, which is in document order, at rising numbers and so with distinct targets. If every rule runs,
each that applies and reports passes stands once in the report, as a violation or as a pass. -/
theorem rules_coherent {d : Document} {limits : Limits} {p : Page}
    (hp : Page.ofDocument? d limits = some p) :
    (∀ r, r ∈ rules ↔ r ∈ pageRules ∨ r ∈ numberedRules.map (·.rule)) ∧
    (∀ r ∈ rules, (r.check p).applicable = false → (r.check p).findings = []) ∧
    (∀ r ∈ pageRules, (r.check p).applicable = true ∧ (r.check p).findings.length ≤ 1) ∧
    (∀ n ∈ numberedRules, (n.list p).Sublist d.elements ∧
      InOrder n.html (n.list p) (n.rule.check p).findings ∧
      ((n.rule.check p).findings.map (·.target)).Nodup) ∧
    ∀ c : Config, c.limits = limits → (∀ r ∈ rules, c.isEnabled r.id = true) →
      ∀ (source : String) (time : Timestamp), ∃ a report,
        Auditor.ofRules Preset.full.rules c = .ok a ∧ a.evaluate d source time = .ok report ∧
        ∀ r ∈ rules, r.reportsPass = true → (r.check p).applicable = true →
          (report.violations.map (·.id) ++ report.passes.map (·.id)).count r.id = 1 := by
  refine ⟨fun r => mem_rules_iff, coherent_of_mem_rules p, pageRules_ofPage p, fun n hn => ?_, ?_⟩
  · have order := numberedRules_inOrder p n hn
    rw [elements_eq_of_page hp]
    exact ⟨numberedRules_sublist p n hn, order, order.nodup_target⟩
  · rintro c rfl enabled source time
    have built : Auditor.ofRules Preset.full.rules c = .ok ⟨rules, c⟩ :=
      Auditor.ofRules_eq_ok_iff.2 ⟨nodup_map_id_rules, rfl⟩
    have verdict := Auditor.report_verdict (a := ⟨rules, c⟩) nodup_map_id_rules p source time
    refine ⟨_, _, built, Auditor.evaluate_eq_ok hp source time, fun r hr hrp ha => ?_⟩
    exact count_entries verdict hr (enabled r hr) hrp ha

/-- A page with an image beside a `div` and an image in it. -/
def twoImages : Document :=
  .ofSteps [.root "html" [], .element 0 "div" [], .element 0 "img" [], .element 1 "img" []]

theorem rules_coherent_two_images :
    Page.ofDocument? twoImages {} = some ⟨twoImages, ⟨twoImages, 0⟩, {}⟩ ∧
    InOrder Element.outerHtml (images ⟨twoImages, ⟨twoImages, 0⟩, {}⟩)
      (imageAlt.check ⟨twoImages, ⟨twoImages, 0⟩, {}⟩).findings :=
  have hp : Page.ofDocument? twoImages {} = some ⟨twoImages, ⟨twoImages, 0⟩, {}⟩ := rfl
  have ⟨_, _, _, numbered, _⟩ := rules_coherent hp
  ⟨hp, (numbered { rule := .imageAlt, list := images } (by simp [numberedRules])).2.1⟩

end Catalogue

end PageAudit
