import PageAudit.Document.Build
import PageAudit.Proofs.Audit.Independence
import PageAudit.Proofs.Report.Truncation

/-!
# Limits and verdicts

Two configurations that differ in their limits only give the same verdict: the limits cut what a report
lists, and of the built-in rules only the one on contrast looks at them at all (`check_of_limits`).

* `Catalogue.exists_listing`: under any limits a built-in rule finds a beginning of the same findings,
  and finds something or nothing alike as long as the rule on contrast may find one thing.
* `Catalogue.rel_violationOf?`, `Catalogue.passOf?_of_limits`: so the entries of the rule are alike.
* `Catalogue.sameVerdict_of_limits`: and so are the reports.

If the rule on contrast may find nothing at all, its violation is not in the report.
-/

namespace PageAudit

/-- The configurations agree in all but their limits. -/
structure Config.SameButLimits (c c' : Config) : Prop where
  preset : c.preset? = c'.preset?
  failOn : c.failOn? = c'.failOn?
  rules : c.rules = c'.rules

theorem Config.SameButLimits.isEnabled {c c' : Config} (h : c.SameButLimits c') (id : String) :
    c.isEnabled id = c'.isEnabled id := by
  unfold Config.isEnabled
  rw [h.rules]

/-- `v` and `w` are the violations of one rule under the limits `l` and `l'`: one lists a beginning of
what the other lists, and they count the same, but that the rule on contrast may stop earlier under the
smaller limit. -/
structure RuleResult.AlikeUnder (l l' : Limits) (v w : RuleResult) : Prop where
  rule : v.SameRule w
  nodes : v.nodes <+: w.nodes ∨ w.nodes <+: v.nodes
  total : v.id ≠ Rule.colorContrast.id → v.total = w.total
  total_le : l.maxContrastFindings ≤ l'.maxContrastFindings → v.total ≤ w.total
  total_ge : l'.maxContrastFindings ≤ l.maxContrastFindings → w.total ≤ v.total

/-- **The same verdict** in reports under the limits `l` and `l'`. -/
structure Report.SameVerdict (l l' : Limits) (r r' : Report) : Prop where
  violations : r.violations.map (fun v => (v.id, v.impact)) =
    r'.violations.map fun v => (v.id, v.impact)
  passes : r.passes = r'.passes
  countAt : ∀ i, r.countAt i = r'.countAt i
  hasViolationsAt : ∀ i, r.hasViolationsAt i = r'.hasViolationsAt i
  results : List.Forall₂ (RuleResult.AlikeUnder l l') r.violations r'.violations

theorem map_eq_of_forall₂ {α β γ : Type} {R : α → β → Prop} {f : α → γ} {g : β → γ}
    (hfg : ∀ a b, R a b → f a = g b) {xs : List α} {ys : List β} (h : List.Forall₂ R xs ys) :
    xs.map f = ys.map g := by
  rw [← List.forall₂_eq_eq_eq, List.forall₂_map_left_iff, List.forall₂_map_right_iff]
  exact h.imp hfg

/-- What is counted and compared are the impacts, and these are the same where the violations are
alike. -/
theorem Report.sameVerdict_of_alike {l l' : Limits} {r r' : Report} (hp : r.passes = r'.passes)
    (hv : List.Forall₂ (RuleResult.AlikeUnder l l') r.violations r'.violations) :
    r.SameVerdict l l' r' := by
  have impacts : r.violations.map (·.impact) = r'.violations.map (·.impact) :=
    map_eq_of_forall₂ (fun v w h => h.rule.impact) hv
  refine ⟨map_eq_of_forall₂ (fun v w h => ?_) hv, hp, fun i => ?_, fun i => ?_, hv⟩
  · rw [h.rule.id, h.rule.impact]
  · have count : ∀ s : Report, s.countAt i = (s.violations.map (·.impact)).countP (· == i) :=
      fun s => by
        rw [List.countP_map]
        rfl
    rw [count, count, impacts]
  · have some : ∀ s : Report, s.hasViolationsAt i = (s.violations.map (·.impact)).any (i ≤ ·) :=
      fun s => by
        rw [List.any_map]
        rfl
    rw [some, some, impacts]

/-! ## One rule under two limits -/

/-- Under the limits `l` and `l'` a rule lists the first `n` and the first `n'` of the same findings,
as far as there are so many. -/
structure Rule.Listing (r : Rule) (p : Page) (l l' : Limits) (found : List Finding) (n n' : Nat) :
    Prop where
  applicable : (r.check { p with limits := l }).applicable =
    (r.check { p with limits := l' }).applicable
  left : (r.check { p with limits := l }).findings = found.take n
  right : (r.check { p with limits := l' }).findings = found.take n'
  one_le_left : 1 ≤ n
  one_le_right : 1 ≤ n'
  same : r.id ≠ colorContrast.id → n = n'
  le : l.maxContrastFindings ≤ l'.maxContrastFindings → n ≤ n'
  ge : l'.maxContrastFindings ≤ l.maxContrastFindings → n' ≤ n

namespace Catalogue

open Auditor Rule

/-- Only the rule on contrast looks at the limits. -/
theorem check_of_limits (p : Page) (l l' : Limits) : ∀ r ∈ rules, r.id ≠ colorContrast.id →
    r.check { p with limits := l } = r.check { p with limits := l' } := by
  simp only [rules, List.forall_mem_cons]
  refine ⟨?_, ?_, ?_, ?_, ?_, ?_, ?_, ?_, fun h => absurd rfl h, ?_, ?_, ?_, ?_, ?_, ?_, ?_, ?_, ?_,
    by simp⟩ <;> exact fun _ => rfl

/-- The rule on contrast finds a beginning of what it would find without a limit. -/
theorem check_colorContrast (p : Page) : colorContrast.check p =
    ⟨!(contrastCandidates p).isEmpty,
      (findingsIn .nth lowContrast (contrastCandidates p)).take p.limits.maxContrastFindings⟩ := by
  show Evaluation.ofScan _ (firstFindings .nth lowContrast _ 0 _) = _
  rw [firstFindings_eq_take]
  rfl

theorem eq_colorContrast_of_id {r : Rule} (hr : r ∈ rules) (h : r.id = colorContrast.id) :
    r = colorContrast :=
  List.inj_on_of_nodup_map nodup_map_id_rules hr (by simp [rules]) h

theorem exists_listing (p : Page) {l l' : Limits} (hl : 1 ≤ l.maxContrastFindings)
    (hl' : 1 ≤ l'.maxContrastFindings) {r : Rule} (hr : r ∈ rules) :
    ∃ found n n', r.Listing p l l' found n n' := by
  by_cases hid : r.id = colorContrast.id
  · obtain rfl := eq_colorContrast_of_id hr hid
    refine ⟨findingsIn .nth lowContrast (contrastCandidates p), l.maxContrastFindings,
      l'.maxContrastFindings, ?_, ?_, ?_, hl, hl', fun h => absurd rfl h, id, id⟩
    · rw [check_colorContrast, check_colorContrast]
      rfl
    · rw [check_colorContrast]
      rfl
    · rw [check_colorContrast]
      rfl
  · have same := check_of_limits p l l' r hr hid
    have all : ∀ fs : List Finding, fs = fs.take (fs.length + 1) := fun fs =>
      (List.take_of_length_le (Nat.le_succ _)).symm
    refine ⟨(r.check { p with limits := l }).findings, _, _, by rw [same], all _, ?_,
      Nat.le_add_left 1 _, Nat.le_add_left 1 _, fun _ => rfl, fun _ => Nat.le_refl _,
      fun _ => Nat.le_refl _⟩
    rw [← same]
    exact all _

theorem take_eq_nil_iff_of_one_le {found : List Finding} {n : Nat} (hn : 1 ≤ n) :
    found.take n = [] ↔ found = [] := by
  rw [List.take_eq_nil_iff]
  exact or_iff_right (by omega)

section
variable {r : Rule} {p : Page} {l l' : Limits} {found : List Finding} {n n' : Nat}
  (h : r.Listing p l l' found n n')
include h

/-- Nothing is found under the one limit exactly if nothing is found under the other. -/
theorem findings_eq_nil_iff : (r.check { p with limits := l }).findings = [] ↔
    (r.check { p with limits := l' }).findings = [] := by
  rw [h.left, h.right, take_eq_nil_iff_of_one_le h.one_le_left,
    take_eq_nil_iff_of_one_le h.one_le_right]

theorem alikeUnder_truncate (k k' : Nat) : RuleResult.AlikeUnder l l'
    ((r.violation (r.check { p with limits := l }).findings).truncate k)
    ((r.violation (r.check { p with limits := l' }).findings).truncate k') := by
  have nodes : ∀ m k, ((r.violation (found.take m)).truncate k).nodes = found.take (min k m) :=
    fun m k => List.take_take
  have total : ∀ m k, ((r.violation (found.take m)).truncate k).total = min m found.length :=
    fun m k => by
      rw [RuleResult.total_truncate, ← List.length_take]
      exact RuleResult.total_of_counted rfl
  have cap : ∀ {m m' : Nat}, m ≤ m' → min m found.length ≤ min m' found.length := by omega
  rw [h.left, h.right]
  refine ⟨⟨rfl, rfl, rfl, rfl, rfl, rfl⟩, ?_, fun hid => ?_, fun hle => ?_, fun hge => ?_⟩
  · rw [nodes, nodes]
    exact (Nat.le_total (min k n) (min k' n')).imp List.take_prefix_take_left
      List.take_prefix_take_left
  · rw [total, total, h.same hid]
  · rw [total, total]
    exact cap (h.le hle)
  · rw [total, total]
    exact cap (h.ge hge)

end

/-! ## The entries of a rule -/

section
variable {rs : List Rule} {c c' : Config} (h : c.SameButLimits c')
  (hc : 1 ≤ c.limits.maxContrastFindings) (hc' : 1 ≤ c'.limits.maxContrastFindings) (p : Page)
include h hc hc'

theorem violates_iff {r : Rule} (hr : r ∈ rules) :
    Violates c { p with limits := c.limits } r ↔ Violates c' { p with limits := c'.limits } r := by
  obtain ⟨found, n, n', listing⟩ := exists_listing p hc hc' hr
  unfold Violates
  rw [h.isEnabled, listing.applicable, ne_eq, ne_eq, findings_eq_nil_iff listing]

theorem passes_iff {r : Rule} (hr : r ∈ rules) :
    Passes c { p with limits := c.limits } r ↔ Passes c' { p with limits := c'.limits } r := by
  obtain ⟨found, n, n', listing⟩ := exists_listing p hc hc' hr
  unfold Passes
  rw [h.isEnabled, listing.applicable, findings_eq_nil_iff listing]

theorem passOf?_of_limits {r : Rule} (hr : r ∈ rules) :
    (⟨rs, c⟩ : Auditor).passOf? { p with limits := c.limits } r =
      (⟨rs, c'⟩ : Auditor).passOf? { p with limits := c'.limits } r := by
  ext q
  unfold passOf?
  rw [outcome_pass?_eq_some_iff, outcome_pass?_eq_some_iff]
  exact and_congr_left' (passes_iff h hc hc' p hr)

theorem rel_violationOf? {r : Rule} (hr : r ∈ rules) :
    Option.Rel (RuleResult.AlikeUnder c.limits c'.limits)
      ((⟨rs, c⟩ : Auditor).violationOf? { p with limits := c.limits } r)
      ((⟨rs, c'⟩ : Auditor).violationOf? { p with limits := c'.limits } r) := by
  obtain ⟨found, n, n', listing⟩ := exists_listing p hc hc' hr
  have violates := violates_iff h hc hc' p hr
  by_cases hv : Violates c { p with limits := c.limits } r
  · rw [violationOf?_eq_some_iff.2 ⟨hv, rfl⟩, violationOf?_eq_some_iff.2 ⟨violates.1 hv, rfl⟩]
    exact .some (alikeUnder_truncate listing _ _)
  · have none : ∀ (b : Config) (q : Page), ¬ Violates b q r →
        (⟨rs, b⟩ : Auditor).violationOf? q r = none := fun b q hn =>
      Option.eq_none_iff_forall_ne_some.2 fun v hv => hn (violationOf?_eq_some_iff.1 hv).1
    rw [none _ _ hv, none _ _ fun hv' => hv (violates.2 hv')]
    exact .none

/-! ## Reports -/

theorem report_sameVerdict (hrs : ∀ r ∈ rs, r ∈ rules) (source : String) (time : Timestamp) :
    Report.SameVerdict c.limits c'.limits
      ((⟨rs, c⟩ : Auditor).report { p with limits := c.limits } source time)
      ((⟨rs, c'⟩ : Auditor).report { p with limits := c'.limits } source time) := by
  rw [report_eq, report_eq]
  refine Report.sameVerdict_of_alike ?_ ?_
  · exact List.filterMap_congr fun r hr => passOf?_of_limits h hc hc' p (hrs r hr)
  · refine List.rel_filterMap (R := fun r r' => r = r' ∧ r ∈ rules) ?_
      (List.forall₂_same.2 fun r hr => ⟨rfl, hrs r hr⟩)
    rintro r _ ⟨rfl, hr⟩
    exact rel_violationOf? h hc hc' p hr

end

/-- **Limits never change the verdict.** Two configurations that agree in all but their limits, both of
which let the rule on contrast find one thing, take the same lists of built-in rules and refuse the same
documents. Of every other document their reports have the same violations by id and impact and the same
passes, so the same numbers at each impact. What one lists of a rule is a beginning of what the other
lists, and the totals are the same but for that of the rule on contrast, which only grows with its
limit. -/
theorem sameVerdict_of_limits {rs : List Rule} (hrs : ∀ r ∈ rs, r ∈ rules) {c c' : Config}
    (h : c.SameButLimits c') (hc : 1 ≤ c.limits.maxContrastFindings)
    (hc' : 1 ≤ c'.limits.maxContrastFindings) :
    (∀ e, ofRules rs c = .error e ↔ ofRules rs c' = .error e) ∧
    ∀ a a', ofRules rs c = .ok a → ofRules rs c' = .ok a' →
      ∀ (d : Document) (source : String) (time : Timestamp),
        (∀ e, a.evaluate d source time = .error e ↔ a'.evaluate d source time = .error e) ∧
        (d.root.isSome → ∃ report report', a.evaluate d source time = .ok report ∧
          a'.evaluate d source time = .ok report' ∧
          report.SameVerdict c.limits c'.limits report') := by
  refine ⟨fun e => by rw [ofRules_eq_error_iff, ofRules_eq_error_iff],
    fun a a' ha ha' d source time => ?_⟩
  obtain ⟨-, rfl⟩ := ofRules_eq_ok_iff.1 ha
  obtain ⟨-, rfl⟩ := ofRules_eq_ok_iff.1 ha'
  refine ⟨fun e => by rw [evaluate_eq_error_iff, evaluate_eq_error_iff], fun hroot => ?_⟩
  obtain ⟨root, hr⟩ := Option.isSome_iff_exists.1 hroot
  exact ⟨_, _, evaluate_eq_ok (a := ⟨rs, c⟩) (ofDocument?_of_root hr c.limits) source time,
    evaluate_eq_ok (a := ⟨rs, c'⟩) (ofDocument?_of_root hr c'.limits) source time,
    report_sameVerdict h hc hc' ⟨d, root, c.limits⟩ hrs source time⟩

/-- A page with three images of which nothing is said. -/
def threeImages : Document :=
  .ofSteps [.root "html" [], .element 0 "img" [], .element 0 "img" [], .element 0 "img" []]

/-- Under the smaller limits one of the three is listed and under the larger ones two are; three are
counted under both. -/
theorem sameVerdict_of_limits_images : ∃ report report',
    evaluate ⟨[.imageAlt], { limits := ⟨1, 1⟩ }⟩ threeImages "page" default = .ok report ∧
      evaluate ⟨[.imageAlt], { limits := ⟨2, 10⟩ }⟩ threeImages "page" default = .ok report' ∧
      report.SameVerdict ⟨1, 1⟩ ⟨2, 10⟩ report' ∧
      report.violations.map (fun v => (v.nodes.length, v.total)) = [(1, 3)] ∧
      report'.violations.map (fun v => (v.nodes.length, v.total)) = [(2, 3)] := by
  have built : ∀ c, ofRules [.imageAlt] c = .ok ⟨[.imageAlt], c⟩ := fun c =>
    ofRules_eq_ok_iff.2 ⟨by decide, rfl⟩
  have builtIn : ∀ r ∈ [imageAlt], r ∈ rules := by simp [rules]
  have limits : ({ limits := ⟨1, 1⟩ } : Config).SameButLimits { limits := ⟨2, 10⟩ } :=
    ⟨rfl, rfl, rfl⟩
  obtain ⟨-, same⟩ := sameVerdict_of_limits builtIn limits (by decide) (by decide)
  obtain ⟨report, report', ok, ok', verdict⟩ :=
    (same _ _ (built _) (built _) threeImages "page" default).2 rfl
  refine ⟨report, report', ok, ok', verdict, ?_, ?_⟩
  · obtain rfl := Except.ok.inj ok
    rfl
  · obtain rfl := Except.ok.inj ok'
    rfl

end Catalogue

end PageAudit
