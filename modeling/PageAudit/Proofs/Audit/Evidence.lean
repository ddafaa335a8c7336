import PageAudit.Config.Reader
import PageAudit.Document.Build
import PageAudit.Proofs.Audit.Independence
import PageAudit.Proofs.Report.Truncation

/-!
# Evidence

A violation shows what its rule found: the first findings, as many as the configuration allows and one
at the least, and the number of all (`RuleResult.Evidence`).

* `Config.one_le_of_parse`: no text sets the limit to zero. A configuration that was not read from a
  text can, and then one finding is shown.
* `Auditor.evident_report`: every violation of a report shows such evidence of one rule, and the rule
  on contrast has no more to show than its own limit allows.
* `Auditor.evident_of_config`: so for every configuration that a text spells, and for one without a
  limit.
-/

namespace PageAudit

/-- Of the findings `found` the violation lists the first, one at the least and `limit` at the most,
and it counts all of them. -/
structure RuleResult.Evidence (limit : Nat) (found : List Finding) (v : RuleResult) : Prop where
  nonempty : 1 ≤ v.nodes.length
  bounded : v.nodes.length ≤ limit
  first : v.nodes = found.take (min limit found.length)
  total : v.total = found.length

/-- A violation is made with all findings, and then cut. -/
theorem Rule.evidence_truncate (r : Rule) {limit : Nat} (hlimit : 1 ≤ limit) {found : List Finding}
    (hfound : found ≠ []) : ((r.violation found).truncate limit).Evidence limit found := by
  have nodes : ((r.violation found).truncate limit).nodes = found.take limit := rfl
  have total : ((r.violation found).truncate limit).total = found.length := by
    rw [RuleResult.total_truncate]
    exact RuleResult.total_of_counted rfl
  have found_pos : 1 ≤ found.length := List.length_pos_iff.2 hfound
  refine ⟨?_, ?_, ?_, total⟩
  · rw [nodes, List.length_take]
    exact Nat.le_min.2 ⟨hlimit, found_pos⟩
  · rw [nodes, List.length_take]
    exact Nat.min_le_left _ _
  · rw [nodes, List.take_eq_take_min]

/-! ## The limit -/

theorem Limits.keep_of_one_le {l : Limits} (h : 1 ≤ l.maxNodesPerRule) :
    l.keep = l.maxNodesPerRule :=
  Nat.max_eq_left h

theorem Limits.keep_of_eq_zero {l : Limits} (h : l.maxNodesPerRule = 0) : l.keep = 1 := by
  rw [keep, h]
  rfl

/-- **A configuration that is read from a text** lists one finding of each rule at the least. -/
theorem Config.one_le_of_parse {s : String} {c : Config} (h : parse s = .ok c) :
    1 ≤ c.limits.maxNodesPerRule := by
  unfold parse at h
  split at h
  case h_1 => cases h
  case h_2 read _ =>
    split at h
    case isTrue => cases h
    case isFalse hne =>
      obtain rfl := Except.ok.inj h
      exact Nat.one_le_iff_ne_zero.2 hne

/-- The rule on contrast stops at its limit. -/
theorem Rule.length_findings_colorContrast (p : Page) :
    (Rule.colorContrast.check p).findings.length ≤ p.limits.maxContrastFindings := by
  show (firstFindings .nth Rule.lowContrast _ 0 _).length ≤ _
  rw [firstFindings_eq_take]
  exact List.length_take_le _ _

namespace Auditor

/-- Every violation of a report shows evidence of one rule, the only one with its id. -/
def Evident (rules : List Rule) (p : Page) (limit : Nat) (report : Report) : Prop :=
  ∀ v ∈ report.violations, ∃ r ∈ rules, (∀ r' ∈ rules, r'.id = v.id ↔ r' = r) ∧
    v.Evidence limit (r.check p).findings ∧
    (r = .colorContrast → (r.check p).findings.length ≤ p.limits.maxContrastFindings)

theorem evident_report {a : Auditor} (hnd : (a.rules.map (·.id)).Nodup) (p : Page)
    (source : String) (time : Timestamp) :
    Evident a.rules p a.config.limits.keep (a.report p source time) := by
  intro v hv
  rw [report_eq] at hv
  obtain ⟨r, hr, hv⟩ := List.mem_filterMap.1 hv
  have hid : v.id = r.id := id_of_violationOf? hv
  obtain ⟨hviolates, rfl⟩ := violationOf?_eq_some_iff.1 hv
  refine ⟨r, hr, fun r' hr' => ⟨fun h => ?_, fun h => ?_⟩,
    r.evidence_truncate (Limits.one_le_keep _) hviolates.2.2.1, ?_⟩
  · exact List.inj_on_of_nodup_map hnd hr' hr (h.trans hid)
  · rw [h, hid]
  · rintro rfl
    exact Rule.length_findings_colorContrast p

theorem exists_evident {rules : List Rule} {c : Config} {a : Auditor} (ha : ofRules rules c = .ok a)
    {d : Document} {p : Page} (hp : Page.ofDocument? d c.limits = some p) (source : String)
    (time : Timestamp) : ∃ report, a.evaluate d source time = .ok report ∧
      Evident rules p c.limits.keep report := by
  obtain ⟨hnd, rfl⟩ := ofRules_eq_ok_iff.1 ha
  exact ⟨_, evaluate_eq_ok hp source time, evident_report (a := ⟨rules, c⟩) hnd p source time⟩

/-- **Evidence is bounded, never empty, and a beginning of what was found.** With a configuration that
was read from a text, an auditor gives every document with a root a report in which each violation
lists one finding at the least and as many as the configuration allows at the most. These are the first
that the rule found on the page, and all that it found are counted; of the rule on contrast they are
within its own limit. A configuration that allows none is taken to allow one. -/
theorem evident_of_config :
    (∀ (text : String) (c : Config), Config.parse text = .ok c → 1 ≤ c.limits.maxNodesPerRule ∧
      ∀ rules a, ofRules rules c = .ok a → ∀ d p, Page.ofDocument? d c.limits = some p →
        ∀ (source : String) (time : Timestamp), ∃ report, a.evaluate d source time = .ok report ∧
          Evident rules p c.limits.maxNodesPerRule report) ∧
    ∀ c : Config, c.limits.maxNodesPerRule = 0 →
      ∀ rules a, ofRules rules c = .ok a → ∀ d p, Page.ofDocument? d c.limits = some p →
        ∀ (source : String) (time : Timestamp), ∃ report, a.evaluate d source time = .ok report ∧
          Evident rules p 1 report := by
  refine ⟨fun text c hc => ⟨Config.one_le_of_parse hc, fun rules a ha d p hp source time => ?_⟩,
    fun c hc rules a ha d p hp source time => ?_⟩
  · rw [← Limits.keep_of_one_le (Config.one_le_of_parse hc)]
    exact exists_evident ha hp source time
  · rw [← Limits.keep_of_eq_zero hc]
    exact exists_evident ha hp source time

/-- A page with three images of which nothing is said, and one of which something is. -/
def fourImages : Document :=
  .ofSteps [.root "html" [], .element 0 "img" [], .element 0 "img" [⟨"alt", ""⟩],
    .element 0 "img" [], .element 0 "img" []]

/-- The page under limits, which the rule on images does not ask for. -/
def fourImagesPage (limits : Limits) : Page :=
  ⟨fourImages, ⟨fourImages, 0⟩, limits⟩

/-- Of the three a text that allows two has two listed, and a configuration that allows none has one. -/
theorem evident_of_config_images :
    (Config.parse "[limits]\nmax_nodes_per_rule = 2\n" = .ok { limits := ⟨2, 10⟩ } ∧
      ofRules [.imageAlt] { limits := ⟨2, 10⟩ } = .ok ⟨[.imageAlt], { limits := ⟨2, 10⟩ }⟩ ∧
      Page.ofDocument? fourImages ⟨2, 10⟩ = some (fourImagesPage ⟨2, 10⟩) ∧
      ∃ report, evaluate ⟨[.imageAlt], { limits := ⟨2, 10⟩ }⟩ fourImages "page" default = .ok report ∧
        Evident [.imageAlt] (fourImagesPage ⟨2, 10⟩) 2 report ∧
        report.violations.map (fun v => (v.nodes.length, v.total)) = [(2, 3)]) ∧
    ∃ report, evaluate ⟨[.imageAlt], { limits := ⟨0, 10⟩ }⟩ fourImages "page" default = .ok report ∧
      Evident [.imageAlt] (fourImagesPage ⟨0, 10⟩) 1 report ∧
      report.violations.map (fun v => (v.nodes.length, v.total)) = [(1, 3)] := by
  have parsed : Config.parse "[limits]\nmax_nodes_per_rule = 2\n" = .ok { limits := ⟨2, 10⟩ } := by
    decide +kernel
  have built : ∀ c, ofRules [.imageAlt] c = .ok ⟨[.imageAlt], c⟩ := fun c =>
    ofRules_eq_ok_iff.2 ⟨by decide, rfl⟩
  obtain ⟨read, made⟩ := evident_of_config
  obtain ⟨report, ok, evident⟩ := (read _ _ parsed).2 _ _ (built _) fourImages
    (fourImagesPage ⟨2, 10⟩) rfl "page" default
  obtain ⟨report', ok', evident'⟩ := made { limits := ⟨0, 10⟩ } rfl _ _ (built _) fourImages
    (fourImagesPage ⟨0, 10⟩) rfl "page" default
  refine ⟨⟨parsed, built _, rfl, report, ok, evident, ?_⟩, report', ok', evident', ?_⟩
  · obtain rfl := Except.ok.inj ok
    rfl
  · obtain rfl := Except.ok.inj ok'
    rfl

end Auditor

end PageAudit
