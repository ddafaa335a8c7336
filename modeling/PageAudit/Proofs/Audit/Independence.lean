import PageAudit.Proofs.Audit.Verdict
import PageAudit.Proofs.Rule.Coherence

/-!
# Independence of rules

What a rule contributes to a report depends on the rule, the configuration and the page, and on no
other rule.

* `entry_report`: the entry of a rule in a report, without the rules around it.
* `evaluate_of_without`: switching rules off is the same as leaving them out.
* `evaluate_basic`: the report of the basic preset is that of the full one without the violations of
  the rules that are not basic.
* `independent_rules`: the three together, for every configuration.
-/

namespace PageAudit

/-- What a report says of a rule: its violation, if it has one, and its pass. -/
def Report.entry (r : Report) (id : String) : Option RuleResult × Option PassResult :=
  (r.violation? id, r.pass? id)

/-! ## Switching rules off -/

namespace Config

/-- `c'` is `c` with the rules of some ids switched off. -/
structure Without (c c' : Config) (off : String → Bool) : Prop where
  limits : c'.limits = c.limits
  isEnabled : ∀ id, c'.isEnabled id = (c.isEnabled id && !off id)

/-- The configuration with some rules switched off, whatever was set for them. -/
def disable (c : Config) (ids : List String) : Config :=
  { c with rules := ids.map (⟨·, some false⟩) ++ c.rules }

theorem find?_switchedOff (ids : List String) (id : String) :
    (ids.map fun id => (⟨id, some false⟩ : RuleSettings)).find? (·.id == id) =
      if ids.contains id then some ⟨id, some false⟩ else none := by
  induction ids with
  | nil => rfl
  | cons x ids ih =>
    by_cases hx : x = id
    · simp [hx]
    · simp [hx, ih, Ne.symm hx]

theorem without_disable (c : Config) (ids : List String) :
    c.Without (c.disable ids) ids.contains where
  limits := rfl
  isEnabled := fun id => by
    unfold isEnabled disable
    rw [List.find?_append, find?_switchedOff]
    cases ids.contains id <;> simp

end Config

namespace Auditor

/-! ## One rule -/

/-- Of an auditor, the outcome of a rule asks only whether the rule is switched on. -/
theorem outcome_congr {a b : Auditor} {r : Rule}
    (h : a.config.isEnabled r.id = b.config.isEnabled r.id) (p : Page) :
    a.outcome p r = b.outcome p r := by
  unfold outcome
  rw [h]

theorem outcome_of_disabled {a : Auditor} {r : Rule} (h : a.config.isEnabled r.id = false)
    (p : Page) : a.outcome p r = .disabled := by
  simp [outcome, h]

/-- The violation of a rule in a report. -/
def violationOf? (a : Auditor) (p : Page) (r : Rule) : Option RuleResult :=
  (a.outcome p r).violation?.map (.truncate a.config.limits.keep)

/-- The pass of a rule in a report. -/
def passOf? (a : Auditor) (p : Page) (r : Rule) : Option PassResult :=
  (a.outcome p r).pass?

theorem violationOf?_eq_some_iff {a : Auditor} {p : Page} {r : Rule} {v : RuleResult} :
    a.violationOf? p r = some v ↔ Violates a.config p r ∧
      v = (r.violation (r.check p).findings).truncate a.config.limits.keep := by
  unfold violationOf?
  rw [Option.map_eq_some_iff]
  constructor
  · rintro ⟨w, hw, rfl⟩
    obtain ⟨hviolates, rfl⟩ := outcome_violation?_eq_some_iff.1 hw
    exact ⟨hviolates, rfl⟩
  · rintro ⟨hviolates, rfl⟩
    exact ⟨_, outcome_violation?_eq_some_iff.2 ⟨hviolates, rfl⟩, rfl⟩

theorem id_of_violationOf? {a : Auditor} {p : Page} {r : Rule} {v : RuleResult}
    (h : a.violationOf? p r = some v) : v.id = r.id := by
  rw [(violationOf?_eq_some_iff.1 h).2]
  rfl

theorem id_of_passOf? {a : Auditor} {p : Page} {r : Rule} {q : PassResult}
    (h : a.passOf? p r = some q) : q.id = r.id := by
  rw [(outcome_pass?_eq_some_iff.1 h).2]
  rfl

/-! ## Rule by rule -/

/-- **A report rule by rule**, in the order of the rules. -/
theorem report_eq (a : Auditor) (p : Page) (source : String) (time : Timestamp) :
    a.report p source time =
      { url := source
        violations := a.rules.filterMap (a.violationOf? p)
        passes := a.rules.filterMap (a.passOf? p)
        timestamp := time } := by
  have hv : ((a.rules.map (a.outcome p)).filterMap (·.violation?)).map
      (.truncate a.config.limits.keep) = a.rules.filterMap (a.violationOf? p) := by
    rw [List.filterMap_map, List.map_filterMap]
    rfl
  have hp : (a.rules.map (a.outcome p)).filterMap (·.pass?) = a.rules.filterMap (a.passOf? p) := by
    rw [List.filterMap_map]
    rfl
  simp only [report, Report.shape, hv, hp, List.map_nil]

/-- Among entries made of rules with distinct ids, the one with the id of a rule is that of the rule. -/
theorem find?_filterMap_id {β : Type} {f : Rule → Option β} {id : β → String}
    (hf : ∀ x y, f x = some y → id y = x.id) {rules : List Rule}
    (hnd : (rules.map (·.id)).Nodup) {r : Rule} (hr : r ∈ rules) :
    (rules.filterMap f).find? (id · == r.id) = f r := by
  induction rules with
  | nil => cases hr
  | cons x rules ih =>
    obtain ⟨hx, hnd⟩ := List.nodup_cons.1 (List.map_cons ▸ hnd)
    rcases List.mem_cons.1 hr with rfl | hr
    · -- no rule further on has an entry with this id
      have hrest : (rules.filterMap f).find? (id · == r.id) = none := by
        refine List.find?_eq_none.2 fun y hy he => hx ?_
        obtain ⟨r', hr', hy⟩ := List.mem_filterMap.1 hy
        rw [beq_iff_eq, hf r' y hy] at he
        exact List.mem_map.2 ⟨r', hr', he⟩
      cases hfr : f r with
      | none => rw [List.filterMap_cons_none hfr, hrest]
      | some y => simp [hfr, hf r y hfr]
    · have hne : x.id ≠ r.id := fun he => hx (he ▸ List.mem_map.2 ⟨r, hr, rfl⟩)
      cases hfx : f x with
      | none => rw [List.filterMap_cons_none hfx, ih hnd hr]
      | some y => simp [hfx, hf x y hfx, hne, ih hnd hr]

/-- **The entry of a rule** is that of the rule alone. -/
theorem entry_report {a : Auditor} (hnd : (a.rules.map (·.id)).Nodup) {r : Rule}
    (hr : r ∈ a.rules) (p : Page) (source : String) (time : Timestamp) :
    (a.report p source time).entry r.id = (a.violationOf? p r, a.passOf? p r) := by
  unfold Report.entry Report.violation? Report.pass?
  rw [report_eq]
  dsimp only
  rw [find?_filterMap_id (fun _ _ => id_of_violationOf?) hnd hr,
    find?_filterMap_id (fun _ _ => id_of_passOf?) hnd hr]

/-! ## Rules left out -/

/-- Rules that have no entry can be left out. -/
theorem filterMap_filter_of_none {β : Type} {f g : Rule → Option β} {q : Rule → Bool}
    {rules : List Rule} (hon : ∀ r ∈ rules, q r = true → f r = g r)
    (hoff : ∀ r ∈ rules, q r = false → f r = none) :
    rules.filterMap f = (rules.filter q).filterMap g := by
  rw [List.filterMap_filter]
  refine List.filterMap_congr fun r hr => ?_
  cases hq : q r with
  | false => simp [hoff r hr hq]
  | true => simp [hon r hr hq]

theorem evaluate_congr {a b : Auditor} {f : Report → Report} (hl : a.config.limits = b.config.limits)
    (source : String) (time : Timestamp)
    (h : ∀ p, b.report p source time = f (a.report p source time)) (d : Document) :
    b.evaluate d source time = (a.evaluate d source time).map f := by
  unfold evaluate audit
  rw [hl]
  cases hp : Page.ofDocument? d b.config.limits with
  | none => rfl
  | some p => simp [Except.map, h p]

/-- **Switching rules off** gives the report of the rules that are left. -/
theorem evaluate_of_without {c c' : Config} {off : String → Bool} (h : c.Without c' off)
    (rules : List Rule) (d : Document) (source : String) (time : Timestamp) :
    (⟨rules, c'⟩ : Auditor).evaluate d source time =
      (⟨rules.filter fun r => !off r.id, c⟩ : Auditor).evaluate d source time := by
  have on : ∀ (p : Page), ∀ r ∈ rules, (!off r.id) = true →
      (⟨rules, c'⟩ : Auditor).outcome p r =
        (⟨rules.filter fun r => !off r.id, c⟩ : Auditor).outcome p r := by
    intro p r _ hr
    refine outcome_congr ?_ p
    rw [h.isEnabled, hr, Bool.and_true]
  have none : ∀ (p : Page), ∀ r ∈ rules, (!off r.id) = false →
      (⟨rules, c'⟩ : Auditor).outcome p r = .disabled := by
    intro p r _ hr
    refine outcome_of_disabled ?_ p
    rw [h.isEnabled, hr, Bool.and_false]
  have hreport : ∀ p, (⟨rules, c'⟩ : Auditor).report p source time =
      (⟨rules.filter fun r => !off r.id, c⟩ : Auditor).report p source time := by
    intro p
    rw [report_eq, report_eq]
    congr 1
    · refine filterMap_filter_of_none (fun r hr hq => ?_) fun r hr hq => ?_
      · rw [violationOf?, violationOf?, on p r hr hq, h.limits]
      · rw [violationOf?, none p r hr hq]
        rfl
    · refine filterMap_filter_of_none (fun r hr hq => ?_) fun r hr hq => ?_
      · rw [passOf?, passOf?, on p r hr hq]
      · rw [passOf?, none p r hr hq]
        rfl
  rw [evaluate_congr (f := id) h.limits.symm source time hreport d]
  cases (⟨rules.filter fun r => !off r.id, c⟩ : Auditor).evaluate d source time <;> rfl

/-! ## Violations left out -/

/-- Leaving out violations by the ids of their rules. -/
def keepViolations (ids : List String) (r : Report) : Report :=
  { r with violations := r.violations.filter fun v => ids.contains v.id }

theorem filterMap_filter_id {β : Type} {f : Rule → Option β} {id : β → String}
    (hf : ∀ x y, f x = some y → id y = x.id) (ids : List String) (rules : List Rule) :
    (rules.filter fun r => ids.contains r.id).filterMap f =
      (rules.filterMap f).filter fun y => ids.contains (id y) := by
  rw [List.filterMap_filter, List.filter_filterMap]
  refine List.filterMap_congr fun r _ => ?_
  cases hr : f r with
  | none => simp
  | some y => simp [Option.filter, hf r y hr]

end Auditor

/-! ## Presets -/

namespace Catalogue

open Auditor

def basicIds : List String := basicRules.map (·.id)

/-- The basic rules stand in the order of all the rules. -/
theorem basicRules_eq_filter : basicRules = rules.filter fun r => basicIds.contains r.id := rfl

/-- Only basic rules report passes. -/
theorem reportsPass_of_not_basic :
    ∀ r ∈ rules, basicIds.contains r.id = false → r.reportsPass = false := by
  intro r hr hb
  by_contra hp
  have hall : rules.all (fun r => r.reportsPass == false || basicIds.contains r.id) = true := rfl
  have := List.all_eq_true.1 hall r hr
  simp_all

/-- **The basic preset** reports the violations of its rules as the full one does, and the same
passes. -/
theorem evaluate_basic (c : Config) (d : Document) (source : String) (time : Timestamp) :
    (⟨basicRules, c⟩ : Auditor).evaluate d source time =
      ((⟨rules, c⟩ : Auditor).evaluate d source time).map (keepViolations basicIds) := by
  refine evaluate_congr (a := ⟨rules, c⟩) (b := ⟨basicRules, c⟩) rfl source time (fun p => ?_) d
  have hv : basicRules.filterMap ((⟨basicRules, c⟩ : Auditor).violationOf? p) =
      (rules.filterMap ((⟨rules, c⟩ : Auditor).violationOf? p)).filter
        fun v => basicIds.contains v.id := by
    rw [basicRules_eq_filter]
    exact filterMap_filter_id (fun _ _ => id_of_violationOf?) basicIds rules
  have hp : rules.filterMap ((⟨rules, c⟩ : Auditor).passOf? p) =
      basicRules.filterMap ((⟨basicRules, c⟩ : Auditor).passOf? p) := by
    rw [basicRules_eq_filter]
    refine filterMap_filter_of_none (fun r _ _ => rfl) fun r hr hb => ?_
    refine Option.eq_none_iff_forall_ne_some.2 fun q hq => ?_
    have := (outcome_pass?_eq_some_iff.1 hq).1.2.2.2
    rw [reportsPass_of_not_basic r hr hb] at this
    cases this
  rw [report_eq, report_eq, keepViolations]
  dsimp only
  rw [hv, hp]

/-! ## All together -/

/-- **Rules do not interfere.** Two auditors with one configuration report the same of a rule that both
have, whatever other rules they have and in whatever order. Switching rules off gives the report of the
rules that are left, and the basic preset that of the full one without the other rules' violations. -/
theorem independent_rules (c : Config) :
    (∀ rules rules' a b, ofRules rules c = .ok a → ofRules rules' c = .ok b →
      ∀ r, r ∈ rules → r ∈ rules' → ∀ (d : Document) (source : String) (time : Timestamp),
        (a.evaluate d source time).map (·.entry r.id) =
            (b.evaluate d source time).map (·.entry r.id) ∧
          (d.root.isSome → ∃ report, a.evaluate d source time = .ok report)) ∧
    (∀ c' off, c.Without c' off → ∀ rules a, ofRules rules c' = .ok a → ∃ b,
      ofRules (rules.filter fun r => !off r.id) c = .ok b ∧
        ∀ (d : Document) (source : String) (time : Timestamp),
          a.evaluate d source time = b.evaluate d source time) ∧
    ∃ full basic, ofRules Preset.full.rules c = .ok full ∧ ofRules Preset.basic.rules c = .ok basic ∧
      ∀ (d : Document) (source : String) (time : Timestamp),
        basic.evaluate d source time =
          (full.evaluate d source time).map (keepViolations basicIds) := by
  refine ⟨?entries, ?switchedOff, ?presets⟩
  case entries =>
    intro rules rules' a b ha hb r hr hr' d source time
    obtain ⟨hnd, rfl⟩ := ofRules_eq_ok_iff.1 ha
    obtain ⟨hnd', rfl⟩ := ofRules_eq_ok_iff.1 hb
    cases hroot : d.root with
    | none => simp [evaluate, audit, Page.ofDocument?, hroot, Except.map]
    | some root =>
      have hp : Page.ofDocument? d c.limits = some ⟨d, root, c.limits⟩ := by
        simp [Page.ofDocument?, hroot]
      rw [evaluate_eq_ok (a := ⟨rules, c⟩) hp, evaluate_eq_ok (a := ⟨rules', c⟩) hp]
      refine ⟨?_, fun _ => ⟨_, rfl⟩⟩
      simp only [Except.map]
      rw [entry_report (a := ⟨rules, c⟩) hnd hr, entry_report (a := ⟨rules', c⟩) hnd' hr']
      rfl
  case switchedOff =>
    intro c' off h rules a ha
    obtain ⟨hnd, rfl⟩ := ofRules_eq_ok_iff.1 ha
    have hleft : ((rules.filter fun r => !off r.id).map (·.id)).Nodup :=
      (List.filter_sublist.map _).nodup hnd
    exact ⟨_, ofRules_eq_ok_iff.2 ⟨hleft, rfl⟩, evaluate_of_without h rules⟩
  case presets =>
    have hbasic : (basicRules.map (·.id)).Nodup := by decide
    exact ⟨_, _, ofRules_eq_ok_iff.2 ⟨nodup_map_id_rules, rfl⟩,
      ofRules_eq_ok_iff.2 ⟨hbasic, rfl⟩, evaluate_basic c⟩

/-- A page that is one `html` element: its entry on headings with a rule before and with a rule after,
and its report when the rule on languages is switched off. -/
theorem independent_rules_bare_page :
    ((⟨[.htmlHasLang, .pageHasHeadingOne], {}⟩ : Auditor).evaluate
        (Document.empty.createRoot "html" []) "page" default).map (·.entry "page-has-heading-one") =
      ((⟨[.pageHasHeadingOne, .multipleH1], {}⟩ : Auditor).evaluate
        (Document.empty.createRoot "html" []) "page" default).map (·.entry "page-has-heading-one") ∧
    ∃ b, ofRules [.pageHasHeadingOne] {} = .ok b ∧
      (⟨[.htmlHasLang, .pageHasHeadingOne], Config.disable {} ["html-has-lang"]⟩ : Auditor).evaluate
          (Document.empty.createRoot "html" []) "page" default =
        b.evaluate (Document.empty.createRoot "html" []) "page" default := by
  obtain ⟨entries, switchedOff, -⟩ := independent_rules {}
  refine ⟨(entries _ _ _ _ (ofRules_eq_ok_iff.2 ⟨by decide, rfl⟩)
    (ofRules_eq_ok_iff.2 ⟨by decide, rfl⟩) Rule.pageHasHeadingOne (by simp) (by simp) _ _ _).1, ?_⟩
  obtain ⟨b, hb, he⟩ := switchedOff _ _ (Config.without_disable {} ["html-has-lang"])
    [.htmlHasLang, .pageHasHeadingOne] _ (ofRules_eq_ok_iff.2 ⟨by decide, rfl⟩)
  exact ⟨b, hb, he _ _ _⟩

end Catalogue

end PageAudit
