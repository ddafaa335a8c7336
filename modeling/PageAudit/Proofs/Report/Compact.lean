import PageAudit.Report.Text
import PageAudit.Proofs.Audit.Independence
import PageAudit.Proofs.Rule.Quoting

/-!
# The compact form

The compact form of a report is made of records, one for each listed finding. It falls apart into its
records at the line feeds if and only if every record is a line (`parts_compact_iff`).

* `compact_lines`: so it does for every report of built-in rules, if nothing that the rules quote as it
  stands in the page has a line feed.
* `compact_brokenPlaceholder`: a placeholder with a line feed makes two lines of one finding.
-/

namespace PageAudit

open Text

namespace Report

/-- What the compact form says of a finding, without the line feed after it. -/
def record (r : Report) (v : RuleResult) (f : Finding) : String :=
  r.url ++ ": " ++ v.impact.name ++ " [" ++ v.id ++ "] " ++ ", ".intercalate f.target ++ ": "
    ++ f.failureSummary

/-- The records of all listed findings, in the order of the report. -/
def records (r : Report) : List String :=
  r.violations.flatMap fun v => v.nodes.map (r.record v)

theorem compact_eq (r : Report) : r.compact = ofLines r.records := by
  unfold compact ofLines records
  rw [List.map_flatMap]
  congr 2
  funext v
  rw [List.map_map]
  rfl

theorem length_records (r : Report) :
    r.records.length = (r.violations.map fun v => v.nodes.length).sum := by
  simp [records, List.length_flatMap]

/-- **The compact form falls apart into its records** exactly if each of them is a line. -/
theorem parts_compact_iff (r : Report) :
    parts '\n' r.compact = r.records ++ [""] ↔ ∀ s ∈ r.records, IsLine s := by
  rw [compact_eq, parts_ofLines_iff]

theorem isLine_intercalate {sep : String} (hsep : IsLine sep) {xs : List String}
    (h : ∀ x ∈ xs, IsLine x) : IsLine (sep.intercalate xs) := by
  intro hm
  rw [String.toList_intercalate] at hm
  rcases mem_intercalate hm with hm | ⟨x, hx, hm⟩
  · exact hsep hm
  · obtain ⟨s, hs, rfl⟩ := List.mem_map.1 hx
    exact h s hs hm

theorem isLine_record {r : Report} (hurl : IsLine r.url) {v : RuleResult} (hid : IsLine v.id)
    {f : Finding} (hf : f.Lines) : IsLine (r.record v f) := by
  have impact : ∀ i : Impact, IsLine i.name := fun i => by cases i <;> decide
  unfold record
  simp only [isLine_append]
  exact ⟨⟨⟨⟨⟨⟨⟨⟨hurl, by decide⟩, impact v.impact⟩, by decide⟩, hid⟩, by decide⟩,
    isLine_intercalate (by decide) hf.target⟩, by decide⟩, hf.summary⟩

end Report

namespace Auditor

/-- The findings that a report lists of a rule are among those of the rule. -/
theorem mem_findings_of_violationOf? {a : Auditor} {p : Page} {r : Rule} {v : RuleResult}
    (h : a.violationOf? p r = some v) :
    a.config.isEnabled r.id = true ∧ ∀ f ∈ v.nodes, f ∈ (r.check p).findings := by
  obtain ⟨⟨enabled, -⟩, rfl⟩ := violationOf?_eq_some_iff.1 h
  exact ⟨enabled, fun f hf => List.mem_of_mem_take hf⟩

/-- The rules that are switched on. -/
def enabledRules (a : Auditor) : List Rule :=
  a.rules.filter fun r => a.config.isEnabled r.id

theorem isLine_id : ∀ r ∈ Catalogue.rules, IsLine r.id := by
  simp only [Catalogue.rules, List.forall_mem_cons, List.not_mem_nil, false_imp_iff, implies_true,
    and_true]
  and_intros <;> exact isLine_ofList.2 (by decide)

/-- **The records of a report are lines**, if the address is and what the rules quote is. -/
theorem isLine_records {a : Auditor} (ha : ∀ r ∈ a.rules, r ∈ Catalogue.rules) {p : Page}
    (hp : p.Unbroken a.enabledRules) {source : String} (hs : IsLine source) (time : Timestamp) :
    ∀ s ∈ (a.report p source time).records, IsLine s := by
  intro s hm
  obtain ⟨v, hv, hm⟩ := List.mem_flatMap.1 hm
  obtain ⟨f, hf, rfl⟩ := List.mem_map.1 hm
  rw [report_eq] at hv ⊢
  obtain ⟨r, hr, hv⟩ := List.mem_filterMap.1 hv
  obtain ⟨enabled, hfs⟩ := mem_findings_of_violationOf? hv
  have hr' : r ∈ a.enabledRules := List.mem_filter.2 ⟨hr, enabled⟩
  refine Report.isLine_record hs ?_ (lines_check r (ha r hr) (hp.mono ?_) f (hfs f hf))
  · rw [id_of_violationOf? hv]
    exact isLine_id r (ha r hr)
  · simpa using hr'

/-- **One line for each finding.** For an auditor of built-in rules, a page on which nothing that the
enabled rules quote as it stands has a line feed, and an address without one, the compact form has
exactly as many lines as there are listed findings, each ended by a line feed, and splitting it at the
line feeds gives back the records in their order. -/
theorem compact_lines {a : Auditor} (ha : ∀ r ∈ a.rules, r ∈ Catalogue.rules) {d : Document}
    {p : Page} (hd : Page.ofDocument? d a.config.limits = some p) (hp : p.Unbroken a.enabledRules)
    {source : String} (hs : IsLine source) (time : Timestamp) :
    ∃ report, a.evaluate d source time = .ok report ∧
      report.compact = ofLines report.records ∧
      report.records.length = (report.violations.map fun v => v.nodes.length).sum ∧
      parts '\n' report.compact = report.records ++ [""] := by
  refine ⟨_, evaluate_eq_ok hd source time, Report.compact_eq _, Report.length_records _, ?_⟩
  rw [Report.parts_compact_iff]
  exact isLine_records ha hp hs time

/-! ## A page that quotes -/

/-- An auditor of the rule that quotes placeholders. -/
def placeholderAuditor : Auditor :=
  ⟨[.placeholderAsLabel], {}⟩

/-- A page with a form field that has only a placeholder to go by. -/
def placeholderForm (placeholder : String) : Document :=
  .ofSteps [.root "html" [], .element 0 "input" [⟨"placeholder", placeholder⟩]]

def placeholderPage (placeholder : String) : Page :=
  ⟨placeholderForm placeholder, ⟨placeholderForm placeholder, 0⟩, {}⟩

theorem evaluate_placeholderForm (placeholder : String) (time : Timestamp) :
    placeholderAuditor.evaluate (placeholderForm placeholder) "page" time =
      .ok (placeholderAuditor.report (placeholderPage placeholder) "page" time) :=
  evaluate_eq_ok (p := placeholderPage placeholder) rfl "page" time

theorem compact_lines_placeholder :
    (placeholderPage "City").Unbroken placeholderAuditor.enabledRules ∧
    ∃ report, placeholderAuditor.evaluate (placeholderForm "City") "page"
        default = .ok report ∧
      report.records.length = 1 ∧ parts '\n' report.compact = report.records ++ [""] := by
  have quoted : (Rule.formFields (placeholderPage "City")).filterMap (·.attr? "placeholder") =
      ["City"] := by decide +kernel
  have unbroken : (placeholderPage "City").Unbroken placeholderAuditor.enabledRules := by
    refine ⟨by decide, fun _ e he v hv => ?_, fun hr => ?_⟩
    · have hm := List.mem_filterMap (f := (·.attr? "placeholder")).2 ⟨e, he, hv⟩
      rw [quoted, List.mem_singleton] at hm
      subst hm
      decide
    · have := List.mem_map_of_mem (f := (·.id)) hr
      revert this
      decide
  obtain ⟨report, ok, -, -, lines⟩ := compact_lines (a := placeholderAuditor)
    (by simp [placeholderAuditor, Catalogue.rules]) (d := placeholderForm "City") (by rfl) unbroken
    (by decide : IsLine "page") default
  refine ⟨unbroken, report, ok, ?_, lines⟩
  rw [← Except.ok.inj ((evaluate_placeholderForm "City" default).symm.trans ok)]
  decide +kernel

/-- One finding with a line feed in the placeholder that it quotes: two lines. -/
theorem compact_brokenPlaceholder :
    ∃ report, placeholderAuditor.evaluate (placeholderForm "Street\nCity")
        "page" default = .ok report ∧
      (report.violations.map fun v => v.nodes.length).sum = 1 ∧
      (parts '\n' report.compact).length = 2 + 1 := by
  refine ⟨_, evaluate_placeholderForm _ _, ?findings, ?lines⟩
  case findings => decide +kernel
  case lines => decide +kernel

end Auditor

end PageAudit
