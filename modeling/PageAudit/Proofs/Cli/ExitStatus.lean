import PageAudit.Proofs.Audit.Limits
import PageAudit.Proofs.Cli.Stages
import PageAudit.Proofs.Report.Reload

/-!
# The exit status of a check

A check whose stages make a plan exits with 1 exactly if the plan **fails**: a chosen rule is enabled,
finds something and reports it at the impact of the plan or above (`Plan.Fails`). The numbers of
violations at each impact say the same, and so does the report that is decoded from the JSON form
(`exitStatus_of_plan`). So the status does not depend on how the report is shown, nor on the limits that
cut it, and a higher impact only makes it milder. The page is what the parser makes of the text, and all
that counts is that it has a root.
-/

namespace PageAudit

/-! ## Reports -/

theorem Impact.le_refl (i : Impact) : i ≤ i :=
  Nat.le_refl _

theorem Impact.le_trans {i j k : Impact} (h : i ≤ j) (h' : j ≤ k) : i ≤ k :=
  Nat.le_trans h h'

namespace Report

theorem hasViolationsAt_iff {r : Report} {i : Impact} :
    r.hasViolationsAt i = true ↔ ∃ v ∈ r.violations, i ≤ v.impact := by
  simp [hasViolationsAt]

theorem hasViolationsAt_iff_countAt {r : Report} {i : Impact} :
    r.hasViolationsAt i = true ↔ ∃ j, i ≤ j ∧ r.countAt j ≠ 0 := by
  rw [hasViolationsAt_iff]
  constructor
  · rintro ⟨v, hv, hle⟩
    refine ⟨v.impact, hle, fun h0 => ?_⟩
    exact List.countP_eq_zero.mp h0 v hv (beq_self_eq_true _)
  · rintro ⟨j, hle, h0⟩
    obtain ⟨v, hv, hj⟩ := List.countP_pos_iff.mp (Nat.pos_of_ne_zero h0)
    exact ⟨v, hv, eq_of_beq hj ▸ hle⟩

/-- A report is decoded from its JSON form as it is printed. -/
theorem ofJsonText?_printed {r : Report} (h : r.timestamp.Representable) {stdout : String}
    (printed : r.Prints .json stdout) : ofJsonText? stdout = some r.uncounted := by
  cases printed
  have text : r.json ++ "\n" = .ofList (r.toJson.pretty 0 ++ ['\n']) := by
    rw [json, String.ofList_append]
  have read := ofJsonText?_json h
  rw [ofJsonText?, json, Json.parse?_pretty r.textual_toJson] at read
  rw [ofJsonText?, text, Json.parse?_pretty_append r.textual_toJson (by decide)]
  exact read

end Report

namespace Auditor

theorem hasViolationsAt_report_iff {a : Auditor} {p : Page} {url : String} {time : Timestamp}
    {i : Impact} : (a.report p url time).hasViolationsAt i = true ↔
      ∃ r ∈ a.rules, Violates a.config p r ∧ i ≤ r.impact := by
  rw [Report.hasViolationsAt_iff, report_eq]
  constructor
  · rintro ⟨v, hv, hle⟩
    obtain ⟨r, hr, hv⟩ := List.mem_filterMap.mp hv
    obtain ⟨hviolates, rfl⟩ := violationOf?_eq_some_iff.mp hv
    exact ⟨r, hr, hviolates, hle⟩
  · rintro ⟨r, hr, hviolates, hle⟩
    exact ⟨_, List.mem_filterMap.mpr ⟨r, hr, violationOf?_eq_some_iff.mpr ⟨hviolates, rfl⟩⟩, hle⟩

end Auditor

namespace Check

/-! ## Plans -/

/-- A chosen rule is enabled, applies to the page, finds something and reports it, at the impact of the
plan or above. -/
def Plan.Fails (parse : Html.Parser) (p : Plan) : Prop :=
  ∃ page, Page.ofDocument? (.ofParsed (parse p.html)) p.config.limits = some page ∧
    ∃ r ∈ p.rules, Auditor.Violates p.config page r ∧ p.impact ≤ r.impact

/-- The plans have the same page and the same rules, and switch off the same of them. Of their limits the
one on contrast lets something be found in both or in neither. -/
structure Plan.Comparable (p p' : Plan) : Prop where
  html : p.html = p'.html
  rules : p.rules = p'.rules
  settings : p.config.rules = p'.config.rules
  contrast : p.config.limits.maxContrastFindings = 0 ↔ p'.config.limits.maxContrastFindings = 0

end Check

namespace Catalogue

open Auditor Rule

/-- The limits make no difference to whether a rule violates. -/
theorem violates_of_settings {c c' : Config} (hsettings : c.rules = c'.rules)
    (hcontrast : c.limits.maxContrastFindings = 0 ↔ c'.limits.maxContrastFindings = 0) (p : Page)
    {r : Rule} (hr : r ∈ rules) :
    Violates c { p with limits := c.limits } r ↔ Violates c' { p with limits := c'.limits } r := by
  by_cases h0 : c.limits.maxContrastFindings = 0
  · have same : r.check { p with limits := c.limits } = r.check { p with limits := c'.limits } := by
      by_cases hid : r.id = colorContrast.id
      · obtain rfl := eq_colorContrast_of_id hr hid
        rw [check_colorContrast, check_colorContrast]
        dsimp only
        rw [h0, hcontrast.mp h0]
        rfl
      · exact check_of_limits p _ _ r hr hid
    have enabled : c.isEnabled r.id = c'.isEnabled r.id := by
      unfold Config.isEnabled
      rw [hsettings]
    unfold Violates
    rw [same, enabled]
  · have h0' := fun h => h0 (hcontrast.mpr h)
    have limits : c.SameButLimits { c' with preset? := c.preset?, failOn? := c.failOn? } :=
      ⟨rfl, rfl, hsettings⟩
    exact violates_iff limits (Nat.one_le_iff_ne_zero.mpr h0) (Nat.one_le_iff_ne_zero.mpr h0') p hr

end Catalogue

namespace Check

theorem exitCode_eq_one_iff {r : Report} {i : Impact} :
    exitCode r i = 1 ↔ r.hasViolationsAt i = true := by
  unfold exitCode
  split <;> simp_all

theorem exitCode_eq_zero_iff {r : Report} {i : Impact} : exitCode r i = 0 ↔ exitCode r i ≠ 1 := by
  unfold exitCode
  split <;> simp

section
variable {parse : Html.Parser}

theorem exists_page (hparse : parse.YieldsRoot) (html : String) : ∃ root, ∀ limits,
    Page.ofDocument? (.ofParsed (parse html)) limits =
      some ⟨.ofParsed (parse html), root, limits⟩ := by
  obtain ⟨root, hroot⟩ := hparse.exists_root html
  exact ⟨root, Auditor.ofDocument?_of_root hroot⟩

theorem Plan.fails_iff {p : Plan} {page : Page}
    (hpage : Page.ofDocument? (.ofParsed (parse p.html)) p.config.limits = some page) :
    p.Fails parse ↔ ∃ r ∈ p.rules, Auditor.Violates p.config page r ∧ p.impact ≤ r.impact := by
  constructor
  · rintro ⟨page', hpage', found⟩
    obtain rfl := Option.some.inj (hpage.symm.trans hpage')
    exact found
  · exact fun found => ⟨page, hpage, found⟩

theorem Plan.Comparable.symm {p p' : Plan} (h : p.Comparable p') : p'.Comparable p :=
  ⟨h.html.symm, h.rules.symm, h.settings.symm, h.contrast.symm⟩

/-- A plan with a higher impact fails only if one with a lower impact does. -/
theorem Plan.Comparable.fails (hparse : parse.YieldsRoot) {p p' : Plan} (h : p.Comparable p')
    (hle : p.impact ≤ p'.impact) (builtIn : ∀ r ∈ p.rules, r ∈ Catalogue.rules)
    (hfails : p'.Fails parse) : p.Fails parse := by
  obtain ⟨root, hpage⟩ := exists_page hparse p.html
  have hpage' := hpage p'.config.limits
  rw [h.html] at hpage'
  obtain ⟨r, hr, hviolates, hle'⟩ := (fails_iff hpage').mp hfails
  rw [← h.rules] at hr
  rw [← h.html] at hviolates
  have same := Catalogue.violates_of_settings h.settings h.contrast
    ⟨.ofParsed (parse p.html), root, p.config.limits⟩ (builtIn r hr)
  dsimp only at same
  exact (fails_iff (hpage _)).mpr ⟨r, hr, same.mpr hviolates, Impact.le_trans hle hle'⟩

end

/-- How a report is shown and what it is called is no part of a plan. -/
theorem Plan.Made.shownAs {s : Surroundings} {config? : Option String} {o : CheckOptions} {p : Plan}
    (h : p.Made s config? o) (format : OutputFormat) (url? : Option String) :
    p.Made s config? { o with format := format, url? := url? } where
  config := h.config
  impact := h.impact
  rules := h.rules.congr rfl rfl fun _ _ => rfl
  page := h.page

section
variable {parse : Html.Parser} (hparse : parse.YieldsRoot) {s : Surroundings}
  {config? : Option String} {o : CheckOptions} {p : Plan} (h : p.Made s config? o)
include hparse h

theorem Plan.Made.exists_report (verbose : Bool) : ∃ report,
    Auditor.evaluate ⟨p.rules, p.config⟩ (.ofParsed (parse p.html)) (o.url?.getD p.name) s.time =
        .ok report ∧
      report.timestamp = s.time ∧
      (report.hasViolationsAt p.impact = true ↔ p.Fails parse) ∧
      (ending parse s verbose config? o).Alike
        { code := exitCode report p.impact, stdout := report.rendered o.format } := by
  obtain ⟨root, hpage⟩ := exists_page hparse p.html
  have report := Auditor.evaluate_eq_ok (a := ⟨p.rules, p.config⟩) (hpage _) (o.url?.getD p.name) s.time
  obtain ⟨_, evaluated, made⟩ := run_of_made hparse h
  obtain rfl := Except.ok.inj (report.symm.trans evaluated)
  refine ⟨_, report, rfl, ?_, (alike_run parse s verbose config? o).trans made⟩
  rw [Auditor.hasViolationsAt_report_iff, Plan.fails_iff (hpage _)]

theorem Plan.Made.status_eq_one_iff (verbose : Bool) :
    (ending parse s verbose config? o).code = 1 ↔ p.Fails parse := by
  obtain ⟨report, -, -, fails, made⟩ := h.exists_report hparse verbose
  rw [made.code, exitCode_eq_one_iff, fails]

theorem Plan.Made.status_eq_zero_iff (verbose : Bool) :
    (ending parse s verbose config? o).code = 0 ↔ ¬ p.Fails parse := by
  obtain ⟨report, -, -, fails, made⟩ := h.exists_report hparse verbose
  rw [made.code, exitCode_eq_zero_iff, ne_eq, exitCode_eq_one_iff, fails]

/-- The status depends on whether the plan fails and on nothing else. -/
theorem Plan.Made.status_eq {s' : Surroundings} {config?' : Option String} {o' : CheckOptions}
    {p' : Plan} (h' : p'.Made s' config?' o') (same : p.Fails parse ↔ p'.Fails parse)
    {verbose verbose' : Bool} :
    (ending parse s verbose config? o).code = (ending parse s' verbose' config?' o').code := by
  by_cases hp : p.Fails parse
  · rw [(h.status_eq_one_iff hparse verbose).mpr hp,
      (h'.status_eq_one_iff hparse verbose').mpr (same.mp hp)]
  · rw [(h.status_eq_zero_iff hparse verbose).mpr hp,
      (h'.status_eq_zero_iff hparse verbose').mpr (mt same.mpr hp)]

end

/-- **The exit status is the verdict** of the plan `p`, and nothing else. -/
structure ExitStatus (parse : Html.Parser) (s : Surroundings) (config? : Option String)
    (o : CheckOptions) (p : Plan) (status : Nat) : Prop where
  one : status = 1 ↔ p.Fails parse
  zero : status = 0 ↔ ¬ p.Fails parse
  /-- Not all numbers of violations at the impact or above are zero. -/
  counts : ∃ report,
    Auditor.evaluate ⟨p.rules, p.config⟩ (.ofParsed (parse p.html)) (o.url?.getD p.name) s.time =
        .ok report ∧
      (status = 1 ↔ ∃ i, p.impact ≤ i ∧ report.countAt i ≠ 0)
  /-- The JSON form of the report is decoded to one with such a violation. -/
  decoded : s.time.Representable → ∀ verbose, ∃ report,
    Report.ofJsonText? (ending parse s verbose config? { o with format := .json }).stdout =
        some report ∧
      (status = 1 ↔ ∃ v ∈ report.violations, p.impact ≤ v.impact)
  /-- Nothing changes with the format and the address that is shown. -/
  shown : ∀ verbose format url?,
    (ending parse s verbose config? { o with format := format, url? := url? }).code = status
  /-- A run of the same page with the same rules has the same status, whatever its limits are, and under
  a higher impact no worse one. -/
  comparable : ∀ s' verbose config?' o' p', p'.Made s' config?' o' → p.Comparable p' →
    (p.impact = p'.impact → (ending parse s' verbose config?' o').code = status) ∧
    (p.impact ≤ p'.impact → status = 0 → (ending parse s' verbose config?' o').code = 0)

/-- **The exit status of a check is its verdict**, for every parser that yields a root. If the stages of
the check make a plan, it exits with 1 exactly if the plan fails and with 0 otherwise. -/
theorem exitStatus_of_plan {parse : Html.Parser} (hparse : parse.YieldsRoot) {s : Surroundings}
    {config? : Option String} {o : CheckOptions} {p : Plan} (h : p.Made s config? o) (verbose : Bool) :
    ExitStatus parse s config? o p (ending parse s verbose config? o).code where
  one := h.status_eq_one_iff hparse verbose
  zero := h.status_eq_zero_iff hparse verbose
  counts := by
    obtain ⟨report, evaluated, -, fails, -⟩ := h.exists_report hparse verbose
    refine ⟨report, evaluated, ?_⟩
    rw [h.status_eq_one_iff hparse, ← fails, Report.hasViolationsAt_iff_countAt]
  decoded := fun htime verbose' => by
    obtain ⟨report, -, time, fails, made⟩ :=
      (h.shownAs .json o.url?).exists_report hparse verbose'
    refine ⟨report.uncounted, ?_, ?_⟩
    · exact Report.ofJsonText?_printed (time ▸ htime) (Report.prints_iff.mpr made.stdout)
    · rw [h.status_eq_one_iff hparse, ← fails, ← Report.hasViolationsAt_uncounted,
        Report.hasViolationsAt_iff]
  shown := fun verbose' format url? => (h.shownAs format url?).status_eq hparse h Iff.rfl
  comparable := fun s' verbose' config?' o' p' h' comparable => by
    have milder := fun hle => comparable.fails hparse hle h.rules.distinct.builtIn
    refine ⟨fun heq => h'.status_eq hparse h ⟨milder (heq ▸ Impact.le_refl _), ?_⟩, fun hle => ?_⟩
    · exact comparable.symm.fails hparse (heq ▸ Impact.le_refl _) h'.rules.distinct.builtIn
    · rw [h.status_eq_zero_iff hparse, h'.status_eq_zero_iff hparse]
      exact mt (milder hle)

/-- Surroundings without a file and with nothing on standard input. -/
def noInput : Surroundings where
  disk := ⟨fun _ => none, fun _ => false, fun _ => none⟩
  directories := {}
  stdin := .empty
  time := default

/-- The plan that asks for the language of a page, here of one without a text. -/
def languageOnly : Plan := ⟨{}, .minor, [.htmlHasLang], "", "stdin"⟩

/-- The document that an empty text spells. -/
def bareDocument : Document := .ofParsed (Html.parse "")

/-- No language is declared where nothing is. -/
theorem exitStatus_of_plan_language :
    languageOnly.Made noInput none { rules? := some "html-has-lang" } ∧
      ExitStatus Html.parse noInput none { rules? := some "html-has-lang" } languageOnly 1 := by
  have made : languageOnly.Made noInput none { rules? := some "html-has-lang" } :=
    ⟨.default rfl, .default rfl rfl, chooses_language rfl _, .input rfl (by decide +kernel)⟩
  have violated : Auditor.Violates {} ⟨bareDocument, ⟨bareDocument, 0⟩, {}⟩ .htmlHasLang :=
    ⟨rfl, rfl, by decide +kernel, rfl⟩
  have fails : languageOnly.Fails Html.parse := by
    refine ⟨⟨bareDocument, ⟨bareDocument, 0⟩, {}⟩, ?_, .htmlHasLang, by simp [languageOnly], violated,
      by decide⟩
    have root : bareDocument.root? = some 0 := by decide +kernel
    show (bareDocument.root.map fun root => (⟨_, root, {}⟩ : Page)) = _
    rw [Document.root, root]
    rfl
  have status := exitStatus_of_plan Html.yieldsRoot_parse made false
  rw [status.one.mpr fails] at status
  exact ⟨made, status⟩

end Check

end PageAudit
