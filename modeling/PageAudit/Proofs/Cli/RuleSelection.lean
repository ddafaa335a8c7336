import PageAudit.Proofs.Cli.ExitStatus

/-!
# Checks of rules chosen by their ids

A check may name its rules by their ids, separated by commas. Then **it prints what a check of all the
rules has on these ids**, in the order of the request, and it warns of every id that names no rule
(`rules_by_id`).

* `run_warnings`: nothing but the choice of the rules warns. A log is put together from parts, and every
  part but one is free of warnings (`warnings_source`, `warnings_auditor`).
* `Plan.Made.ofAll`: a plan of rules chosen by their ids differs from that of the full preset in the
  rules alone.
-/

namespace PageAudit

/-! ## Warnings -/

/-- The warnings in a log, in their order. -/
def warnings (log : List LogLine) : List LogLine :=
  log.filter (·.level = .warn)

@[simp] theorem warnings_append (a b : List LogLine) : warnings (a ++ b) = warnings a ++ warnings b :=
  List.filter_append ..

theorem warnings_eq_nil_iff {log : List LogLine} :
    warnings log = [] ↔ ∀ l ∈ log, l.level ≠ .warn := by
  simp [warnings]

@[simp] theorem warnings_source (source : ConfigSource) : warnings source.log = [] := by
  cases source <;> rfl

@[simp] theorem warnings_unknownRules (ids : List String) :
    warnings (Check.unknownRules ids) = Check.unknownRules ids := by
  rw [warnings, List.filter_eq_self]
  intro l hl
  obtain ⟨id, -, rfl⟩ := List.mem_map.1 hl
  rfl

@[simp] theorem warnings_starting (url : String) (count : Nat) :
    warnings [Check.starting url count] = [] := rfl

theorem Outcome.level_of_logLine? {id : String} {l : LogLine} {outcome : Outcome}
    (h : outcome.logLine? id = some l) : l.level = .debug := by
  cases outcome with
  | disabled | notApplicable | withheld count =>
    obtain rfl := Option.some.inj h
    rfl
  | passed entry | clean | violated entry => cases h

theorem warnings_auditor (a : Auditor) (p : Page) (r : Report) : warnings (a.log p r) = [] := by
  rw [warnings_eq_nil_iff]
  intro l hl
  rcases List.mem_append.1 hl with hl | hl
  · obtain ⟨rule, -, hl⟩ := List.mem_filterMap.1 hl
    rw [Outcome.level_of_logLine? hl]
    decide
  · obtain rfl := List.mem_singleton.1 hl
    simp

theorem warnings_audit {a : Auditor} {d : Document} {source : String} {time : Timestamp}
    {audited : Audited} (h : a.audit d source time = .ok audited) : warnings audited.log = [] := by
  unfold Auditor.audit at h
  cases hp : Page.ofDocument? d a.config.limits with
  | none => simp [hp] at h
  | some p =>
    rw [hp] at h
    obtain rfl := Except.ok.inj h
    exact warnings_auditor a p _

/-- The lines that are left out of a log are no warnings. -/
@[simp] theorem warnings_shown (verbose : Bool) (log : List LogLine) :
    warnings (Program.shown verbose log) = warnings log := by
  rw [warnings, warnings, Program.shown, List.filter_filter]
  refine List.filter_congr fun l _ => ?_
  cases hl : l.level <;> simp

namespace Check

variable {parse : Html.Parser} {s : Surroundings} {verbose : Bool} {config? : Option String}
  {o : CheckOptions}

theorem warnings_ending :
    warnings (ending parse s verbose config? o).log = warnings (run parse s config? o).log :=
  warnings_shown verbose _

/-- A run that does not come to the choice of its rules does not warn. -/
theorem run_silent {e : CheckError} (h : Loads s.disk (source s o.path config?) (.error e) ∨
    ∃ c, Loads s.disk (source s o.path config?) (.ok c) ∧ Settles o.failOn? c (.error e)) :
    warnings (run parse s config? o).log = [] := by
  rcases h with config | ⟨c, config, impact⟩
  · simp only [run, loads_iff.mp config, failed, warnings_source]
  · simp only [run, loads_iff.mp config, settles_iff.mp impact, failed, warnings_source]

/-- A run that comes to it warns of the ids that name no rule, and of nothing else. -/
theorem run_warnings (hparse : parse.YieldsRoot) {c : Config} {i : Impact} {rules : List Rule}
    {unknown : List String}
    (config : Loads s.disk (source s o.path config?) (.ok c)) (impact : Settles o.failOn? c (.ok i))
    (choice : chooseRules o c = .ok (rules, unknown)) :
    warnings (run parse s config? o).log = unknownRules unknown := by
  have chosen : Chooses o c (.ok rules) := chooses_iff.mpr (by rw [choice]; rfl)
  simp only [run, loads_iff.mp config, settles_iff.mp impact, choice, chosen.built]
  cases readPage s o.path with
  | error e => simp [failed]
  | ok page =>
    obtain ⟨html, name⟩ := page
    obtain ⟨report, log, -, audited⟩ := exists_audit hparse ⟨rules, c⟩ html (o.url?.getD name) s.time
    simp only [audited, warnings_append, warnings_source, warnings_unknownRules, warnings_starting,
      warnings_audit audited, List.nil_append, List.append_nil]

/-! ## Beside the full preset -/

/-- The options with all rules in place of those asked for. -/
def withAllRules (o : CheckOptions) : CheckOptions :=
  { o with rules? := none, preset? := some .full }

theorem Plan.Made.ofAll {p : Plan} (h : p.Made s config? o) :
    { p with rules := Preset.full.rules }.Made s config? (withAllRules o) where
  config := h.config
  impact := h.impact
  rules := Chooses.flag (p := .full) rfl rfl
  page := h.page

/-- **How a check of rules chosen by these ids goes.** -/
structure ById (parse : Html.Parser) (ids : List String) (s : Surroundings) (verbose : Bool)
    (config? : Option String) (o : CheckOptions) : Prop where
  /-- Every mention of an id that names no rule is warned of, and nothing else is. -/
  warned : ∀ c i, Loads s.disk (source s o.path config?) (.ok c) → Settles o.failOn? c (.ok i) →
    warnings (ending parse s verbose config? o).log =
      unknownRules (ids.filter fun id => (Catalogue.rule? id).isNone)
  /-- The run may also fail before it comes to the rules. -/
  silent : ∀ e, (Loads s.disk (source s o.path config?) (.error e) ∨
      ∃ c, Loads s.disk (source s o.path config?) (.ok c) ∧ Settles o.failOn? c (.error e)) →
    warnings (ending parse s verbose config? o).log = []
  /-- A check of all rules prints a report, and this one prints the entries for the ids in it. -/
  printed : ∀ p : Plan, p.Made s config? o → ∃ all : Report,
    Auditor.evaluate ⟨Preset.full.rules, p.config⟩ (.ofParsed (parse p.html)) (o.url?.getD p.name)
      s.time = .ok all ∧
    all.Prints o.format (ending parse s verbose config? (withAllRules o)).stdout ∧
    (all.listing ids).Prints o.format (ending parse s verbose config? o).stdout

section
variable {ids : List String} {text : String} (hrules : o.rules? = some text)
  (hids : (Text.parts ',' text).map Text.trim = ids)
include hrules hids

theorem chooseRules_ids (c : Config) :
    chooseRules o c = .ok ((Selection.ofIds ids).chosen, (Selection.ofIds ids).unknown) := by
  rw [chooseRules, hrules, ← hids]

theorem Plan.Made.rules_eq {p : Plan} (h : p.Made s config? o) :
    p.rules = (Selection.ofIds ids).chosen := by
  have chosen := chooses_iff.mp h.rules
  rw [chooseRules_ids hrules hids] at chosen
  exact (Except.ok.inj chosen).symm

theorem byId_of_rules (hparse : parse.YieldsRoot) : ById parse ids s verbose config? o where
  warned c i config impact := by
    rw [warnings_ending, run_warnings hparse config impact (chooseRules_ids hrules hids c),
      (Selection.selected_ofIds ids).unknown]
  silent e he := by rw [warnings_ending, run_silent he]
  printed p hp := by
    obtain ⟨all, evaluated, made⟩ := run_of_made hparse hp.ofAll
    obtain ⟨report, evaluated', made'⟩ := run_of_made hparse hp
    have printed := ((alike_run parse s verbose config? _).trans made).stdout
    have printed' := ((alike_run parse s verbose config? o).trans made').stdout
    have listed : report = all.listing ids := by
      rw [hp.rules_eq hrules hids, Auditor.evaluate_of_selected (Selection.selected_ofIds ids)]
        at evaluated'
      exact Except.ok.inj (evaluated'.symm.trans (congrArg (Except.map _) evaluated))
    rw [listed] at printed'
    exact ⟨all, evaluated, Report.prints_iff.mpr printed, Report.prints_iff.mpr printed'⟩

end

/-- **Rules by their ids.** Any list of ids selects the built-in rules among them, each once and where it
is named first, so the rules always make an auditor. Its report lists what the report of all rules has
on the ids. A check that names its rules warns of the ids that name none, and prints that report, for
every parser that yields a root. -/
theorem rules_by_id (ids : List String) :
    Selection.Selected ids (Selection.ofIds ids) ∧
    ((Selection.ofIds ids).chosen.map (·.id)).Nodup ∧
    (∀ r, r ∈ (Selection.ofIds ids).chosen ↔ r ∈ Catalogue.rules ∧ r.id ∈ ids) ∧
    (∀ c : Config, ∃ a all, Auditor.ofRules (Selection.ofIds ids).chosen c = .ok a ∧
      Auditor.ofRules Preset.full.rules c = .ok all ∧
      ∀ d source time, a.evaluate d source time = (all.evaluate d source time).map (·.listing ids)) ∧
    ∀ parse : Html.Parser, parse.YieldsRoot → ∀ s verbose config? (o : CheckOptions) text,
      o.rules? = some text → (Text.parts ',' text).map Text.trim = ids →
        ById parse ids s verbose config? o := by
  have selected := Selection.selected_ofIds ids
  refine ⟨selected, selected.nodup, fun _ => selected.mem_iff, fun c => ?_, ?_⟩
  · exact ⟨_, _, Auditor.ofRules_eq_ok_iff.mpr ⟨selected.nodup, rfl⟩,
      Auditor.ofRules_eq_ok_iff.mpr ⟨(Preset.distinct_rules .full).nodup, rfl⟩,
      Auditor.evaluate_of_selected selected c⟩
  · intro parse hparse s verbose config? o text hrules hids
    exact byId_of_rules hrules hids hparse

/-- A rule that is named twice is run once, and an id that names none is warned of. -/
theorem rules_by_id_request :
    let o : CheckOptions := { rules? := some "heading-order, no-such-rule,image-alt,image-alt" }
    (∃ p : Plan, p.Made noInput none o ∧ p.rules = [.headingOrder, .imageAlt]) ∧
      warnings (ending Html.parse noInput false none o).log =
        [⟨.warn, "Unknown rule: no-such-rule"⟩] ∧
      ById Html.parse ["heading-order", "no-such-rule", "image-alt", "image-alt"] noInput false none
        o := by
  intro o
  have ids : (Text.parts ',' "heading-order, no-such-rule,image-alt,image-alt").map Text.trim =
      ["heading-order", "no-such-rule", "image-alt", "image-alt"] := by decide +kernel
  obtain ⟨selected, -, -, -, runs⟩ :=
    rules_by_id ["heading-order", "no-such-rule", "image-alt", "image-alt"]
  have config : Loads noInput.disk (source noInput o.path none) (.ok {}) := .default rfl
  have impact : Settles o.failOn? {} (.ok .minor) := .default rfl rfl
  have byId := runs Html.parse Html.yieldsRoot_parse noInput false none o _ rfl ids
  refine ⟨⟨⟨{}, .minor, [.headingOrder, .imageAlt], "", "stdin"⟩, ⟨config, impact, ?_, ?_⟩, rfl⟩, ?_,
    byId⟩
  · have chosen : (Selection.ofIds ["heading-order", "no-such-rule", "image-alt", "image-alt"]).chosen =
        [.headingOrder, .imageAlt] := selected.chosen.trans rfl
    rw [← chosen, ← ids]
    exact .ids rfl
  · exact .input rfl (by decide +kernel)
  · exact byId.warned {} .minor config impact

end Check

end PageAudit
