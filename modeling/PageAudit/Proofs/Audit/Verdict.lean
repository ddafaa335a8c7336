import PageAudit.Auditor
import PageAudit.Catalogue
import Mathlib.Data.List.Nodup

/-!
# Verdicts

Which rules an auditor takes, and what its report says about each of them.

* `ofRules_eq_ok_iff`, `ofRules_eq_error_iff`: an auditor is made of rules with distinct ids, and
  otherwise the first repeated id is named.
* `evaluate_eq_error_iff`: only a document without a root is refused.
* `report_verdict`: a rule stands among the violations, among the passes or in neither, as its
  settings, its evaluation and its two switches say (`Verdict`).
* `verdict_of_rules`: the three together, for every list of rules and every configuration.
-/

namespace PageAudit

theorem map_filterMap_eq {α β γ : Type} {f : α → Option β} {g : β → γ} {h : α → γ} (xs : List α)
    (hf : ∀ x y, f x = some y → g y = h x) :
    (xs.filterMap f).map g = (xs.filter fun x => (f x).isSome).map h := by
  induction xs with
  | nil => rfl
  | cons x xs ih =>
    cases hx : f x with
    | none => simp [hx, ih]
    | some y => simp [hx, ih, hf x y hx]

namespace Auditor

/-! ## Distinct ids -/

theorem firstRepeated?_eq_none_iff {seen ids : List String} :
    firstRepeated? seen ids = none ↔ ids.Nodup ∧ ∀ id ∈ ids, id ∉ seen := by
  induction ids generalizing seen with
  | nil => simp [firstRepeated?]
  | cons x ids ih =>
    rw [firstRepeated?]
    by_cases hx : x ∈ seen
    · simp [hx]
    · simp only [List.contains_eq_mem, hx, decide_false, Bool.false_eq_true, if_false, ih]
      constructor
      · rintro ⟨hnd, hs⟩
        refine ⟨List.nodup_cons.2 ⟨fun hm => hs x hm (by simp), hnd⟩, fun id hm => ?_⟩
        rcases List.mem_cons.1 hm with rfl | hm
        · exact hx
        · exact fun h => hs id hm (List.mem_cons_of_mem _ h)
      · rintro ⟨hnd, hs⟩
        obtain ⟨hn, hnd⟩ := List.nodup_cons.1 hnd
        refine ⟨hnd, fun id hm h => ?_⟩
        rcases List.mem_cons.1 h with rfl | h
        · exact hn hm
        · exact hs id (List.mem_cons_of_mem _ hm) h

theorem firstRepeated?_eq_some_iff {seen ids : List String} {id : String} :
    firstRepeated? seen ids = some id ↔
      ∃ before after, ids = before ++ id :: after ∧ before.Nodup ∧ (∀ x ∈ before, x ∉ seen) ∧
        (id ∈ before ∨ id ∈ seen) := by
  induction ids generalizing seen with
  | nil => simp [firstRepeated?]
  | cons x ids ih =>
    rw [firstRepeated?]
    by_cases hx : x ∈ seen
    · simp only [List.contains_eq_mem, hx, decide_true, if_true, Option.some.injEq]
      constructor
      · rintro rfl
        exact ⟨[], ids, rfl, .nil, by simp, .inr hx⟩
      · rintro ⟨before, after, he, -, hs, -⟩
        cases before with
        | nil => exact (List.cons.inj he).1
        | cons b before => exact absurd ((List.cons.inj he).1 ▸ hx) (hs b (by simp))
    · simp only [List.contains_eq_mem, hx, decide_false, Bool.false_eq_true, if_false, ih]
      constructor
      · rintro ⟨before, after, rfl, hnd, hs, hm⟩
        have hxb : x ∉ before := fun hb => hs x hb (by simp)
        refine ⟨x :: before, after, rfl, List.nodup_cons.2 ⟨hxb, hnd⟩, ?_, ?_⟩
        · simp only [List.forall_mem_cons]
          exact ⟨hx, fun y hy hys => hs y hy (List.mem_cons_of_mem _ hys)⟩
        · rcases hm with hm | hm
          · exact .inl (List.mem_cons_of_mem _ hm)
          · rcases List.mem_cons.1 hm with rfl | hm
            · exact .inl (by simp)
            · exact .inr hm
      · rintro ⟨before, after, he, hnd, hs, hm⟩
        cases before with
        | nil =>
          obtain ⟨rfl, -⟩ := List.cons.inj he
          exact absurd (hm.resolve_left (by simp)) hx
        | cons b before =>
          obtain ⟨rfl, rfl⟩ := List.cons.inj he
          obtain ⟨hxb, hnd⟩ := List.nodup_cons.1 hnd
          refine ⟨before, after, rfl, hnd, fun y hy => ?_, ?_⟩
          · simp only [List.mem_cons, not_or]
            exact ⟨fun h => hxb (h ▸ hy), hs y (List.mem_cons_of_mem _ hy)⟩
          · rcases hm with hm | hm
            · rcases List.mem_cons.1 hm with rfl | hm
              · exact .inr (by simp)
              · exact .inl hm
            · exact .inr (List.mem_cons_of_mem _ hm)

/-- `r` is the first rule whose id a rule before it has. -/
def FirstRepeat (rules : List Rule) (r : Rule) : Prop :=
  ∃ before after, rules = before ++ r :: after ∧ (before.map (·.id)).Nodup ∧
    r.id ∈ before.map (·.id)

theorem exists_firstRepeat_iff {rules : List Rule} {id : String} :
    firstRepeated? [] (rules.map (·.id)) = some id ↔ ∃ r, FirstRepeat rules r ∧ r.id = id := by
  rw [firstRepeated?_eq_some_iff]
  constructor
  · rintro ⟨before, after, he, hnd, -, hm⟩
    obtain ⟨before, rest, rfl, rfl, hr⟩ := List.map_eq_append_iff.1 he
    obtain ⟨r, after, rfl, rfl, rfl⟩ := List.map_eq_cons_iff.1 hr
    exact ⟨r, ⟨before, after, rfl, hnd, by simpa using hm⟩, rfl⟩
  · rintro ⟨r, ⟨before, after, rfl, hnd, hm⟩, rfl⟩
    exact ⟨before.map (·.id), after.map (·.id), by simp, hnd, by simp, .inl hm⟩

theorem ofRules_eq_ok_iff {rules : List Rule} {config : Config} {a : Auditor} :
    ofRules rules config = .ok a ↔ (rules.map (·.id)).Nodup ∧ a = ⟨rules, config⟩ := by
  unfold ofRules
  cases h : firstRepeated? [] (rules.map (·.id)) with
  | none => simpa [(firstRepeated?_eq_none_iff.1 h).1] using eq_comm
  | some id =>
    have hn : ¬ (rules.map (·.id)).Nodup := fun hnd => by
      rw [firstRepeated?_eq_none_iff.2 ⟨hnd, by simp⟩] at h
      cases h
    simp [hn]

theorem ofRules_eq_error_iff {rules : List Rule} {config : Config} {e : AuditError} :
    ofRules rules config = .error e ↔ ∃ r, FirstRepeat rules r ∧ e = .duplicateRule r.id := by
  unfold ofRules
  cases h : firstRepeated? [] (rules.map (·.id)) with
  | none =>
    have hn : ∀ r, ¬ FirstRepeat rules r := fun r hr => by
      rw [exists_firstRepeat_iff.2 ⟨r, hr, rfl⟩] at h
      cases h
    simp [hn]
  | some id =>
    obtain ⟨r, hr, rfl⟩ := exists_firstRepeat_iff.1 h
    simp only [Except.error.injEq]
    constructor
    · rintro rfl
      exact ⟨r, hr, rfl⟩
    · rintro ⟨r', hr', rfl⟩
      rw [exists_firstRepeat_iff.2 ⟨r', hr', rfl⟩, Option.some.injEq] at h
      rw [h]

/-! ## One rule -/

/-- The rule runs, applies, finds something and reports it. -/
def Violates (c : Config) (p : Page) (r : Rule) : Prop :=
  c.isEnabled r.id ∧ (r.check p).applicable ∧ (r.check p).findings ≠ [] ∧ r.surfaces

/-- The rule runs, applies, finds nothing and reports that. -/
def Passes (c : Config) (p : Page) (r : Rule) : Prop :=
  c.isEnabled r.id ∧ (r.check p).applicable ∧ (r.check p).findings = [] ∧ r.reportsPass

theorem Violates.not_passes {c : Config} {p : Page} {r : Rule} (h : Violates c p r) :
    ¬ Passes c p r := fun hp => h.2.2.1 hp.2.2.1

/-- What becomes of a rule, and when. -/
theorem outcome_cases (a : Auditor) (p : Page) (r : Rule) :
    a.config.isEnabled r.id = false ∧ a.outcome p r = .disabled ∨
    (r.check p).applicable = false ∧ a.outcome p r = .notApplicable ∨
    Passes a.config p r ∧ a.outcome p r = .passed r.pass ∨
    (r.check p).findings = [] ∧ r.reportsPass = false ∧ a.outcome p r = .clean ∨
    Violates a.config p r ∧ a.outcome p r = .violated (r.violation (r.check p).findings) ∨
    (r.check p).findings ≠ [] ∧ r.surfaces = false ∧
      a.outcome p r = .withheld (r.check p).findings.length := by
  unfold outcome Passes Violates
  cases he : a.config.isEnabled r.id
  · simp
  cases ha : (r.check p).applicable
  · simp [ha]
  cases hf : (r.check p).findings with
  | nil => cases r.reportsPass <;> simp [ha, hf]
  | cons f fs => cases r.surfaces <;> simp [ha, hf]

theorem outcome_violation?_eq_some_iff {a : Auditor} {p : Page} {r : Rule} {v : RuleResult} :
    (a.outcome p r).violation? = some v ↔
      Violates a.config p r ∧ v = r.violation (r.check p).findings := by
  rcases outcome_cases a p r with
    ⟨he, ho⟩ | ⟨ha, ho⟩ | ⟨hp, ho⟩ | ⟨hf, -, ho⟩ | ⟨hv, ho⟩ | ⟨-, hs, ho⟩ <;> rw [ho]
  · simp [Outcome.violation?, Violates, he]
  · simp [Outcome.violation?, Violates, ha]
  · simp [Outcome.violation?, Violates, hp.2.2.1]
  · simp [Outcome.violation?, Violates, hf]
  · simp [Outcome.violation?, hv, eq_comm]
  · simp [Outcome.violation?, Violates, hs]

theorem outcome_pass?_eq_some_iff {a : Auditor} {p : Page} {r : Rule} {q : PassResult} :
    (a.outcome p r).pass? = some q ↔ Passes a.config p r ∧ q = r.pass := by
  rcases outcome_cases a p r with
    ⟨he, ho⟩ | ⟨ha, ho⟩ | ⟨hp, ho⟩ | ⟨-, hr, ho⟩ | ⟨hv, ho⟩ | ⟨hf, -, ho⟩ <;> rw [ho]
  · simp [Outcome.pass?, Passes, he]
  · simp [Outcome.pass?, Passes, ha]
  · simp [Outcome.pass?, hp, eq_comm]
  · simp [Outcome.pass?, Passes, hr]
  · simp [Outcome.pass?, hv.not_passes]
  · simp [Outcome.pass?, Passes, hf]

theorem isSome_violation?_iff {a : Auditor} {p : Page} {r : Rule} :
    (a.outcome p r).violation?.isSome ↔ Violates a.config p r := by
  simp [Option.isSome_iff_exists, outcome_violation?_eq_some_iff]

theorem isSome_pass?_iff {a : Auditor} {p : Page} {r : Rule} :
    (a.outcome p r).pass?.isSome ↔ Passes a.config p r := by
  simp [Option.isSome_iff_exists, outcome_pass?_eq_some_iff]

/-! ## The whole report -/

section
variable (a : Auditor) (p : Page) (source : String) (time : Timestamp)

/-- The ids of the violations are those of the rules with a violation, in the order of the rules. -/
theorem violations_map_id :
    (a.report p source time).violations.map (·.id) =
      (a.rules.filter fun r => (a.outcome p r).violation?.isSome).map (·.id) := by
  simp only [report, Report.shape, List.map_map, List.filterMap_map]
  refine map_filterMap_eq a.rules fun r v hv => ?_
  rw [(outcome_violation?_eq_some_iff.1 hv).2]
  rfl

theorem passes_map_id :
    (a.report p source time).passes.map (·.id) =
      (a.rules.filter fun r => (a.outcome p r).pass?.isSome).map (·.id) := by
  simp only [report, Report.shape, List.filterMap_map]
  refine map_filterMap_eq a.rules fun r q hq => ?_
  rw [(outcome_pass?_eq_some_iff.1 hq).2]
  rfl

end

/-- **What a report says** of each rule, by its id. -/
structure Verdict (rules : List Rule) (c : Config) (p : Page) (report : Report) : Prop where
  violated : ∀ r ∈ rules, r.id ∈ report.violations.map (·.id) ↔ Violates c p r
  passed : ∀ r ∈ rules, r.id ∈ report.passes.map (·.id) ↔ Passes c p r
  violations_order : (report.violations.map (·.id)).Sublist (rules.map (·.id))
  passes_order : (report.passes.map (·.id)).Sublist (rules.map (·.id))
  violations_nodup : (report.violations.map (·.id)).Nodup
  passes_nodup : (report.passes.map (·.id)).Nodup
  never_both : ∀ id, ¬ ((report.violation? id).isSome ∧ (report.pass? id).isSome)
  incomplete : report.incomplete = []

theorem mem_map_id_filter {rules : List Rule} (hnd : (rules.map (·.id)).Nodup)
    {q : Rule → Bool} {r : Rule} (hr : r ∈ rules) :
    r.id ∈ (rules.filter q).map (·.id) ↔ q r = true := by
  simp only [List.mem_map, List.mem_filter]
  constructor
  · rintro ⟨r', ⟨hr', hq⟩, he⟩
    exact List.inj_on_of_nodup_map hnd hr' hr he ▸ hq
  · exact fun hq => ⟨r, ⟨hr, hq⟩, rfl⟩

theorem report_verdict {a : Auditor} (hnd : (a.rules.map (·.id)).Nodup) (p : Page)
    (source : String) (time : Timestamp) :
    Verdict a.rules a.config p (a.report p source time) := by
  have hv := violations_map_id a p source time
  have hp := passes_map_id a p source time
  have violated : ∀ r ∈ a.rules,
      r.id ∈ (a.report p source time).violations.map (·.id) ↔ Violates a.config p r := by
    intro r hr
    rw [hv, mem_map_id_filter hnd hr, isSome_violation?_iff]
  have passed : ∀ r ∈ a.rules,
      r.id ∈ (a.report p source time).passes.map (·.id) ↔ Passes a.config p r := by
    intro r hr
    rw [hp, mem_map_id_filter hnd hr, isSome_pass?_iff]
  have violations_order : ((a.report p source time).violations.map (·.id)).Sublist
      (a.rules.map (·.id)) := by
    rw [hv]
    exact List.filter_sublist.map _
  have passes_order : ((a.report p source time).passes.map (·.id)).Sublist
      (a.rules.map (·.id)) := by
    rw [hp]
    exact List.filter_sublist.map _
  refine ⟨violated, passed, violations_order, passes_order, violations_order.nodup hnd,
    passes_order.nodup hnd, ?_, rfl⟩
  rintro id ⟨h1, h2⟩
  obtain ⟨v, hv, hvid⟩ := List.find?_isSome.1 h1
  obtain ⟨q, hq, hqid⟩ := List.find?_isSome.1 h2
  simp only [beq_iff_eq] at hvid hqid
  have hvm : id ∈ (a.report p source time).violations.map (·.id) := List.mem_map.2 ⟨v, hv, hvid⟩
  have hqm : id ∈ (a.report p source time).passes.map (·.id) := List.mem_map.2 ⟨q, hq, hqid⟩
  obtain ⟨r, hr, rfl⟩ := List.mem_map.1 (violations_order.subset hvm)
  exact ((violated r hr).1 hvm).not_passes ((passed r hr).1 hqm)

theorem ofDocument?_of_root {d : Document} {root : Element} (hr : d.root = some root)
    (limits : Limits) : Page.ofDocument? d limits = some ⟨d, root, limits⟩ := by
  rw [Page.ofDocument?, hr, Option.map_some]

theorem evaluate_eq_ok {a : Auditor} {d : Document} {p : Page}
    (hp : Page.ofDocument? d a.config.limits = some p) (source : String) (time : Timestamp) :
    a.evaluate d source time = .ok (a.report p source time) := by
  simp [evaluate, audit, hp, Except.map]

theorem evaluate_eq_error_iff {a : Auditor} {d : Document} {source : String} {time : Timestamp}
    {e : AuditError} :
    a.evaluate d source time = .error e ↔ d.root = none ∧ e = .invalidDocument := by
  cases hr : d.root with
  | none =>
    simp [evaluate, audit, Page.ofDocument?, hr, Except.map, eq_comm]
  | some root =>
    rw [evaluate_eq_ok (ofDocument?_of_root hr a.config.limits)]
    simp

/-- **Building and evaluating.** An auditor is made exactly of rules with distinct ids, and the first
repeated id is reported otherwise. It refuses exactly the documents without a root, and of every other
it gives a report with the verdict of its rules. -/
theorem verdict_of_rules (rules : List Rule) (config : Config) :
    (∀ a, ofRules rules config = .ok a ↔ (rules.map (·.id)).Nodup ∧ a = ⟨rules, config⟩) ∧
    (∀ e, ofRules rules config = .error e ↔
      ∃ r, FirstRepeat rules r ∧ e = .duplicateRule r.id) ∧
    ∀ a, ofRules rules config = .ok a → ∀ (d : Document) (source : String) (time : Timestamp),
      (∀ e, a.evaluate d source time = .error e ↔ d.root = none ∧ e = .invalidDocument) ∧
      ∀ p, Page.ofDocument? d config.limits = some p →
        ∃ report, a.evaluate d source time = .ok report ∧ Verdict rules config p report := by
  refine ⟨fun a => ofRules_eq_ok_iff, fun e => ofRules_eq_error_iff, fun a ha d source time => ?_⟩
  obtain ⟨hnd, rfl⟩ := ofRules_eq_ok_iff.1 ha
  refine ⟨fun e => evaluate_eq_error_iff, fun p hp => ?_⟩
  exact ⟨_, evaluate_eq_ok hp source time, report_verdict (a := ⟨rules, config⟩) hnd p source time⟩

/-- A page that is one `html` element, audited for a language and a heading. -/
theorem verdict_of_bare_page :
    ∃ report, evaluate ⟨[.htmlHasLang, .pageHasHeadingOne], {}⟩
        (Document.empty.createRoot "html" []) "page" default = .ok report ∧
      Verdict [.htmlHasLang, .pageHasHeadingOne] {}
        ⟨Document.empty.createRoot "html" [], ⟨Document.empty.createRoot "html" [], 0⟩, {}⟩ report :=
  have ⟨built, _, evaluated⟩ := verdict_of_rules [.htmlHasLang, .pageHasHeadingOne] {}
  (evaluated _ ((built _).2 ⟨by decide, rfl⟩) _ "page" default).2 _ rfl

end Auditor

end PageAudit
