import PageAudit.Cli.Run
import PageAudit.Proofs.Audit.Selection
import PageAudit.Proofs.Document.Parsed
import PageAudit.Proofs.Html.Reader
import PageAudit.Proofs.Text.Delimited

/-!
# The stages of a check

A check loads its configuration, settles the impact at which it fails, chooses the rules and reads the
page. Each stage has a relation of its own that says what it comes to (`Loads`, `Settles`, `Chooses`,
`Reads`), and `FirstFailure` and `Plan.Made` put them in order. Every run either has a first failure or
has everything that an audit needs, and **ends as this says** (`stages_of_check`). What it reports tells
its first failure (`FirstFailure.eq_of_message`). A value that another one overrides is never looked at
(`Config.AlikeFor`).

How a page is read is a parameter of a check. All that is said here holds for every parser that yields a
root (`Html.Parser.YieldsRoot`).
-/

namespace PageAudit

/-! ## Rules to choose from -/

/-- The rules are built-in ones with distinct ids. -/
structure Catalogue.Distinct (rules : List Rule) : Prop where
  nodup : (rules.map (·.id)).Nodup
  builtIn : ∀ r ∈ rules, r ∈ Catalogue.rules

theorem Selection.distinct_ofIds (ids : List String) : Catalogue.Distinct (ofIds ids).chosen where
  nodup := (selected_ofIds ids).nodup
  builtIn := fun _ hr => ((selected_ofIds ids).mem_iff.1 hr).1

theorem Preset.distinct_rules (p : Preset) : Catalogue.Distinct p.rules := by
  cases p with
  | full => exact ⟨Catalogue.nodup_map_id_rules, fun _ hr => hr⟩
  | basic =>
    refine ⟨by decide, fun r hr => ?_⟩
    rw [rules, Catalogue.basicRules_eq_filter] at hr
    exact List.mem_of_mem_filter hr

/-- The configuration that a text spells, before its limits are looked at. -/
def Config.spelled? (text : String) : Option Config :=
  (Toml.parse? text).bind ofToml?

/-- What is printed of a report: its text, or its JSON form and a line feed, or its compact form. -/
inductive Report.Prints (r : Report) : OutputFormat → String → Prop
  | text : r.Prints .text r.text
  | json : r.Prints .json (r.json ++ "\n")
  | compact : r.Prints .compact r.compact

theorem Report.prints_iff {r : Report} {format : OutputFormat} {stdout : String} :
    r.Prints format stdout ↔ stdout = r.rendered format := by
  constructor
  · intro h
    cases h with
    | text | json | compact => rfl
  · rintro rfl
    cases format with
    | text => exact .text
    | json => exact .json
    | compact => exact .compact

/-- The run prints nothing, exits with status 1 and reports the error. -/
structure Ending.FailsWith (ending : Ending) (e : CheckError) : Prop where
  code : ending.code = 1
  stdout : ending.stdout = ""
  error? : ending.error? = some e.message

/-- The runs have one exit status, print the same and report the same error. -/
structure Ending.Alike (e e' : Ending) : Prop where
  code : e.code = e'.code
  stdout : e.stdout = e'.stdout
  error? : e.error? = e'.error?

theorem Ending.FailsWith.alike {a b : Ending} {e : CheckError} (h : a.FailsWith e)
    (h' : b.FailsWith e) : a.Alike b :=
  ⟨h.code.trans h'.code.symm, h.stdout.trans h'.stdout.symm, h.error?.trans h'.error?.symm⟩

theorem Ending.Alike.symm {e e' : Ending} (h : e.Alike e') : e'.Alike e :=
  ⟨h.code.symm, h.stdout.symm, h.error?.symm⟩

theorem Ending.Alike.trans {e e' e'' : Ending} (h : e.Alike e') (h' : e'.Alike e'') : e.Alike e'' :=
  ⟨h.code.trans h'.code, h.stdout.trans h'.stdout, h.error?.trans h'.error?⟩

theorem Ending.FailsWith.of_alike {a b : Ending} {e : CheckError} (h : b.FailsWith e)
    (hab : a.Alike b) : a.FailsWith e :=
  ⟨hab.code.trans h.code, hab.stdout.trans h.stdout, hab.error?.trans h.error?⟩

/-- The configurations differ at most in values that the options override. -/
structure Config.AlikeFor (o : CheckOptions) (c c' : Config) : Prop where
  failOn : o.failOn? = none → c.failOn? = c'.failOn?
  preset : o.rules? = none → o.preset? = none → c.preset? = c'.preset?
  limits : c.limits = c'.limits
  rules : c.rules = c'.rules

namespace Check

/-! ## What each stage comes to -/

/-- The defaults, or what the text of a file spells. A file that cannot be read as text, a text that is
no configuration, and one that allows a violation no finding are all refused by the path. -/
inductive Loads (disk : Disk) (source : ConfigSource) : Except CheckError Config → Prop
  | default : source.path? = none → Loads disk source (.ok {})
  | read {path text : String} {c : Config} : source.path? = some path → disk.text? path = some text →
      Config.spelled? text = some c → c.limits.maxNodesPerRule ≠ 0 → Loads disk source (.ok c)
  | unreadable {path : String} : source.path? = some path → disk.text? path = none →
      Loads disk source (.error (.config path))
  | malformed {path text : String} : source.path? = some path → disk.text? path = some text →
      Config.spelled? text = none → Loads disk source (.error (.config path))
  | noFindings {path text : String} {c : Config} : source.path? = some path →
      disk.text? path = some text → Config.spelled? text = some c → c.limits.maxNodesPerRule = 0 →
      Loads disk source (.error (.config path))

/-- The impact named on the command line, or else the one named in the configuration, or else minor. -/
inductive Settles (flag? : Option String) (c : Config) : Except CheckError Impact → Prop
  | flag {name : String} {i : Impact} : flag? = some name → Impact.ofName? name = some i →
      Settles flag? c (.ok i)
  | unknownFlag {name : String} : flag? = some name → Impact.ofName? name = none →
      Settles flag? c (.error (.unknownImpact name))
  | config {name : String} {i : Impact} : flag? = none → c.failOn? = some name →
      Impact.ofName? name = some i → Settles flag? c (.ok i)
  | unknownConfig {name : String} : flag? = none → c.failOn? = some name →
      Impact.ofName? name = none → Settles flag? c (.error (.configImpact (.unknownImpact name)))
  | default : flag? = none → c.failOn? = none → Settles flag? c (.ok .minor)

/-- The rules asked for by id, or else those of a preset: the one on the command line, or else the one
in the configuration, or else the full one. -/
inductive Chooses (o : CheckOptions) (c : Config) : Except CheckError (List Rule) → Prop
  | ids {ids : String} : o.rules? = some ids →
      Chooses o c (.ok (Selection.ofIds ((Text.parts ',' ids).map Text.trim)).chosen)
  | flag {p : Preset} : o.rules? = none → o.preset? = some p → Chooses o c (.ok p.rules)
  | config {name : String} {p : Preset} : o.rules? = none → o.preset? = none →
      c.preset? = some name → Preset.ofName? name = some p → Chooses o c (.ok p.rules)
  | unknownConfig {name : String} : o.rules? = none → o.preset? = none → c.preset? = some name →
      Preset.ofName? name = none → Chooses o c (.error (.unknownPreset name))
  | default : o.rules? = none → o.preset? = none → c.preset? = none →
      Chooses o c (.ok Preset.full.rules)

/-- The text of standard input or of a file, if it is UTF-8, and the name that it goes by. -/
inductive Reads (s : Surroundings) (path : String) : Except CheckError (String × String) → Prop
  | input {html : String} : path = "-" → String.fromUTF8? s.stdin = some html →
      Reads s path (.ok (html, "stdin"))
  | badInput : path = "-" → String.fromUTF8? s.stdin = none → Reads s path (.error .unreadableInput)
  | file {html : String} : path ≠ "-" → s.disk.text? path = some html → Reads s path (.ok (html, path))
  | badFile : path ≠ "-" → s.disk.text? path = none → Reads s path (.error (.unreadable path))

section
variable {s : Surroundings} {disk : Disk} {source : ConfigSource} {o : CheckOptions} {c : Config}

theorem Config.parse_eq (text : String) : Config.parse text = match Config.spelled? text with
    | none => .error .parse
    | some c =>
      if c.limits.maxNodesPerRule = 0 then .error (.invalidLimit "max_nodes_per_rule") else .ok c :=
  rfl

/-- A stage comes to one thing only, and that is what the run gets. -/
theorem loads_iff {x : Except CheckError Config} :
    Loads disk source x ↔ loadConfig disk source = x := by
  constructor
  · intro h
    cases h <;> simp [loadConfig, Config.parse_eq, Except.mapError, *]
  · rintro rfl
    unfold loadConfig
    split
    · rename_i h
      exact .default h
    · rename_i path hpath
      split
      · rename_i ht
        exact .unreadable hpath ht
      · rename_i text ht
        rw [Config.parse_eq]
        split
        · rename_i hc
          exact .malformed hpath ht hc
        · rename_i c hc
          split
          · rename_i h0
            exact .noFindings hpath ht hc h0
          · rename_i h0
            exact .read hpath ht hc h0

theorem settles_iff {flag? : Option String} {x : Except CheckError Impact} :
    Settles flag? c x ↔ threshold flag? c = x := by
  constructor
  · intro h
    unfold threshold Config.failOnImpact
    cases h with
    | flag hf hi | unknownFlag hf hi =>
      rw [hf]
      dsimp only
      rw [hi]
    | config hf hn hi | unknownConfig hf hn hi =>
      rw [hf, hn]
      dsimp only
      rw [hi]
      rfl
    | default hf hn =>
      rw [hf, hn]
      rfl
  · rintro rfl
    unfold threshold Config.failOnImpact
    cases flag? with
    | some name =>
      dsimp only
      cases hi : Impact.ofName? name with
      | some i => exact .flag rfl hi
      | none => exact .unknownFlag rfl hi
    | none =>
      dsimp only
      cases hn : c.failOn? with
      | none => exact .default rfl hn
      | some name =>
        dsimp only
        cases hi : Impact.ofName? name with
        | some i => exact .config rfl hn hi
        | none => exact .unknownConfig rfl hn hi

theorem chooses_iff {x : Except CheckError (List Rule)} :
    Chooses o c x ↔ (chooseRules o c).map (·.1) = x := by
  constructor
  · intro h
    unfold chooseRules preset
    cases h with
    | ids hr =>
      rw [hr]
      rfl
    | flag hr hp =>
      rw [hr, hp]
      rfl
    | config hr hp hn hi | unknownConfig hr hp hn hi =>
      rw [hr, hp, hn]
      dsimp only
      rw [hi]
      rfl
    | default hr hp hn =>
      rw [hr, hp, hn]
      rfl
  · rintro rfl
    unfold chooseRules preset
    cases hr : o.rules? with
    | some ids => exact .ids hr
    | none =>
      cases hp : o.preset? with
      | some p => exact .flag hr hp
      | none =>
        cases hn : c.preset? with
        | none => exact .default hr hp hn
        | some name =>
          dsimp only
          cases hi : Preset.ofName? name with
          | some p => exact .config hr hp hn hi
          | none => exact .unknownConfig hr hp hn hi

theorem reads_iff {path : String} {x : Except CheckError (String × String)} :
    Reads s path x ↔ readPage s path = x := by
  constructor
  · intro h
    cases h <;> simp [readPage, *]
  · rintro rfl
    unfold readPage
    split
    · rename_i hpath
      cases ht : String.fromUTF8? s.stdin with
      | some html => exact .input hpath ht
      | none => exact .badInput hpath ht
    · rename_i hpath
      cases ht : s.disk.text? path with
      | some html => exact .file hpath ht
      | none => exact .badFile hpath ht

theorem Chooses.error {e : CheckError} (h : Chooses o c (.error e)) : chooseRules o c = .error e := by
  have hmap := chooses_iff.mp h
  cases hr : chooseRules o c with
  | error e' =>
    rw [hr] at hmap
    exact congrArg Except.error (Except.error.inj hmap)
  | ok x =>
    rw [hr] at hmap
    cases hmap

theorem Chooses.ok {rules : List Rule} (h : Chooses o c (.ok rules)) :
    ∃ unknown, chooseRules o c = .ok (rules, unknown) := by
  have hmap := chooses_iff.mp h
  cases hr : chooseRules o c with
  | error e =>
    rw [hr] at hmap
    cases hmap
  | ok x =>
    rw [hr] at hmap
    obtain rfl := Except.ok.inj hmap
    exact ⟨x.2, rfl⟩

/-- A choice depends on the rules and the preset asked for, and where there are none on the preset in the
configuration. -/
theorem Chooses.congr {o' : CheckOptions} {c' : Config} {x : Except CheckError (List Rule)}
    (h : Chooses o c x) (hrules : o.rules? = o'.rules?) (hpreset : o.preset? = o'.preset?)
    (hconfig : o.rules? = none → o.preset? = none → c.preset? = c'.preset?) : Chooses o' c' x := by
  cases h with
  | ids hr => exact .ids (hrules ▸ hr)
  | flag hr hp => exact .flag (hrules ▸ hr) (hpreset ▸ hp)
  | config hr hp hn hi => exact .config (hrules ▸ hr) (hpreset ▸ hp) (hconfig hr hp ▸ hn) hi
  | unknownConfig hr hp hn hi =>
    exact .unknownConfig (hrules ▸ hr) (hpreset ▸ hp) (hconfig hr hp ▸ hn) hi
  | default hr hp hn => exact .default (hrules ▸ hr) (hpreset ▸ hp) (hconfig hr hp ▸ hn)

theorem Chooses.distinct {rules : List Rule} (h : Chooses o c (.ok rules)) :
    Catalogue.Distinct rules := by
  cases h with
  | ids _ => exact Selection.distinct_ofIds _
  | flag _ _ => exact Preset.distinct_rules _
  | config _ _ _ _ => exact Preset.distinct_rules _
  | default _ _ _ => exact Preset.distinct_rules _

theorem Chooses.built {rules : List Rule} (h : Chooses o c (.ok rules)) :
    Auditor.ofRules rules c = .ok ⟨rules, c⟩ :=
  Auditor.ofRules_eq_ok_iff.mpr ⟨h.distinct.nodup, rfl⟩

end

/-! ## The stages in order -/

/-- What the stages come to if none of them fails. -/
structure Plan where
  config : Config
  impact : Impact
  rules : List Rule
  html : String
  name : String

section
variable (s : Surroundings) (config? : Option String) (o : CheckOptions)

/-- Every stage comes to its part of the plan. -/
structure Plan.Made (p : Plan) : Prop where
  config : Loads s.disk (source s o.path config?) (.ok p.config)
  impact : Settles o.failOn? p.config (.ok p.impact)
  rules : Chooses o p.config (.ok p.rules)
  page : Reads s o.path (.ok (p.html, p.name))

/-- A stage fails, and those before it do not. -/
inductive FirstFailure : CheckError → Prop
  | config {e : CheckError} : Loads s.disk (source s o.path config?) (.error e) → FirstFailure e
  | impact {e : CheckError} {c : Config} : Loads s.disk (source s o.path config?) (.ok c) →
      Settles o.failOn? c (.error e) → FirstFailure e
  | rules {e : CheckError} {c : Config} {i : Impact} :
      Loads s.disk (source s o.path config?) (.ok c) → Settles o.failOn? c (.ok i) →
      Chooses o c (.error e) → FirstFailure e
  | page {e : CheckError} {c : Config} {i : Impact} {rules : List Rule} :
      Loads s.disk (source s o.path config?) (.ok c) → Settles o.failOn? c (.ok i) →
      Chooses o c (.ok rules) → Reads s o.path (.error e) → FirstFailure e

theorem exists_firstFailure_or_made :
    (∃ e, FirstFailure s config? o e) ∨ ∃ p : Plan, p.Made s config? o := by
  cases hc : loadConfig s.disk (source s o.path config?) with
  | error e => exact .inl ⟨e, .config (loads_iff.mpr hc)⟩
  | ok c =>
    have config := loads_iff.mpr hc
    cases hi : threshold o.failOn? c with
    | error e => exact .inl ⟨e, .impact config (settles_iff.mpr hi)⟩
    | ok i =>
      have impact := settles_iff.mpr hi
      cases hr : (chooseRules o c).map (·.1) with
      | error e => exact .inl ⟨e, .rules config impact (chooses_iff.mpr hr)⟩
      | ok rules =>
        have rules' := chooses_iff.mpr hr
        cases hp : readPage s o.path with
        | error e => exact .inl ⟨e, .page config impact rules' (reads_iff.mpr hp)⟩
        | ok page =>
          have page' := reads_iff.mpr hp
          exact .inr ⟨⟨c, i, rules, page.1, page.2⟩, config, impact, rules', page'⟩

end

section
variable {parse : Html.Parser} {s : Surroundings} {config? : Option String} {o : CheckOptions}

/-- Nothing is printed by a run that fails. -/
theorem run_of_firstFailure {e : CheckError} (h : FirstFailure s config? o e) :
    (run parse s config? o).FailsWith e := by
  cases h with
  | config config =>
    simp only [run, loads_iff.mp config]
    exact ⟨rfl, rfl, rfl⟩
  | impact config impact =>
    simp only [run, loads_iff.mp config, settles_iff.mp impact]
    exact ⟨rfl, rfl, rfl⟩
  | rules config impact rules =>
    simp only [run, loads_iff.mp config, settles_iff.mp impact, rules.error]
    exact ⟨rfl, rfl, rfl⟩
  | page config impact rules page =>
    obtain ⟨unknown, chosen⟩ := rules.ok
    simp only [run, loads_iff.mp config, settles_iff.mp impact, chosen, rules.built,
      reads_iff.mp page]
    exact ⟨rfl, rfl, rfl⟩

/-- The impact in the configuration is wrong only for a run that asks for none. -/
theorem FirstFailure.failOn?_eq_none {cause : ConfigError}
    (h : FirstFailure s config? o (.configImpact cause)) : o.failOn? = none := by
  cases h with
  | config h => cases h
  | impact _ h =>
    cases h with
    | unknownConfig hf _ _ => exact hf
  | rules _ _ h => cases h
  | page _ _ _ h => cases h

/-- The preset in the configuration is wrong only for a run that asks for no rules and no preset. -/
theorem FirstFailure.nothing_asked {name : String}
    (h : FirstFailure s config? o (.unknownPreset name)) : o.rules? = none ∧ o.preset? = none := by
  cases h with
  | config h => cases h
  | impact _ h => cases h
  | rules _ _ h =>
    cases h with
    | unknownConfig hr hp _ _ => exact ⟨hr, hp⟩
  | page _ _ _ h => cases h

/-! ## What is reported -/

/-- An error that a stage of a check with these options can end in, and what its message begins with. -/
inductive StageError (o : CheckOptions) : CheckError → String → Prop
  | config (path : String) : StageError o (.config path) "Failed to load config: "
  | flag {name : String} : o.failOn? = some name →
      StageError o (.unknownImpact name) "Unknown impact '"
  | impact (name : String) : StageError o (.configImpact (.unknownImpact name)) "Unknown impact \x60"
  | preset (name : String) : StageError o (.unknownPreset name) "Unknown preset '"
  | input : o.path = "-" → StageError o .unreadableInput "Failed to read "
  | file : o.path ≠ "-" → StageError o (.unreadable o.path) "Failed to read "

theorem FirstFailure.exists_stageError {e : CheckError} (h : FirstFailure s config? o e) :
    ∃ lead, StageError o e lead := by
  cases h with
  | config h => cases h <;> exact ⟨_, .config _⟩
  | impact _ h =>
    cases h with
    | unknownFlag hf _ => exact ⟨_, .flag hf⟩
    | unknownConfig _ _ _ => exact ⟨_, .impact _⟩
  | rules _ _ h =>
    cases h with
    | unknownConfig _ _ _ _ => exact ⟨_, .preset _⟩
  | page _ _ _ h =>
    cases h with
    | badInput hpath _ => exact ⟨_, .input hpath⟩
    | badFile hpath _ => exact ⟨_, .file hpath⟩

theorem StageError.exists_message {e : CheckError} {lead : String} (h : StageError o e lead) :
    ∃ rest, e.message = lead ++ rest := by
  cases h with
  | config path => exact ⟨path, rfl⟩
  | flag _ | impact _ | preset _ => exact ⟨_, String.append_assoc ..⟩
  | input _ => exact ⟨"HTML from stdin", by decide⟩
  | file _ => exact ⟨o.path, rfl⟩

/-- The message of an error tells it apart from the others. Of a page the options say whether it is
standard input. -/
theorem StageError.eq_of_message {e e' : CheckError} {lead lead' : String} (h : StageError o e lead)
    (h' : StageError o e' lead') (hm : e.message = e'.message) : e = e' := by
  have same : ¬ ∃ x ∈ lead.toList.zip lead'.toList, x.1 ≠ x.2 := by
    obtain ⟨x, hx⟩ := h.exists_message
    obtain ⟨y, hy⟩ := h'.exists_message
    intro apart
    refine Text.append_ne_of_apart apart x.toList y.toList ?_
    rw [← String.toList_append, ← String.toList_append, ← hx, ← hy, hm]
  cases h with
  | config path =>
    cases h' with
    | config path' => rw [(String.append_right_inj _).mp hm]
    | _ => exact absurd (by decide) same
  | flag hf =>
    cases h' with
    | flag hf' => rw [Option.some.inj (hf.symm.trans hf')]
    | _ => exact absurd (by decide) same
  | impact name =>
    cases h' with
    | impact name' => rw [(String.append_right_inj _).mp ((String.append_left_inj _).mp hm)]
    | _ => exact absurd (by decide) same
  | preset name =>
    cases h' with
    | preset name' => rw [(String.append_right_inj _).mp ((String.append_left_inj _).mp hm)]
    | _ => exact absurd (by decide) same
  | input hpath =>
    cases h' with
    | input _ => rfl
    | file hpath' => exact absurd hpath hpath'
    | _ => exact absurd (by decide) same
  | file hpath =>
    cases h' with
    | input hpath' => exact absurd hpath' hpath
    | file _ => rfl
    | _ => exact absurd (by decide) same

theorem FirstFailure.eq_of_message {s' : Surroundings} {config?' : Option String} {e e' : CheckError}
    (h : FirstFailure s config? o e) (h' : FirstFailure s' config?' o e')
    (hm : e.message = e'.message) : e = e' := by
  obtain ⟨_, error⟩ := h.exists_stageError
  obtain ⟨_, error'⟩ := h'.exists_stageError
  exact error.eq_of_message error' hm

/-! ## The audit -/

theorem exists_audit (hparse : parse.YieldsRoot) (a : Auditor) (html url : String) (time : Timestamp) :
    ∃ report log, a.evaluate (.ofParsed (parse html)) url time = .ok report ∧
      a.audit (.ofParsed (parse html)) url time = .ok ⟨report, log⟩ := by
  obtain ⟨root, hroot⟩ := hparse.exists_root html
  have page := Auditor.ofDocument?_of_root hroot a.config.limits
  exact ⟨_, _, Auditor.evaluate_eq_ok page url time, by rw [Auditor.audit, page]⟩

/-- A run whose stages make a plan ends with its audit. -/
theorem run_of_made (hparse : parse.YieldsRoot) {p : Plan} (h : p.Made s config? o) : ∃ report,
    Auditor.evaluate ⟨p.rules, p.config⟩ (.ofParsed (parse p.html)) (o.url?.getD p.name) s.time =
      .ok report ∧
      (run parse s config? o).Alike
        { code := exitCode report p.impact, stdout := report.rendered o.format } := by
  obtain ⟨unknown, chosen⟩ := h.rules.ok
  obtain ⟨report, log, evaluated, audited⟩ :=
    exists_audit hparse ⟨p.rules, p.config⟩ p.html (o.url?.getD p.name) s.time
  refine ⟨report, evaluated, ?_⟩
  simp only [run, loads_iff.mp h.config, settles_iff.mp h.impact, chosen, h.rules.built,
    reads_iff.mp h.page, audited]
  exact ⟨rfl, rfl, rfl⟩

end

/-! ## Values that are overridden -/

section
variable {o : CheckOptions} {c c' : Config} (h : c.AlikeFor o c')
include h

theorem Settles.of_alike {x : Except CheckError Impact} (hx : Settles o.failOn? c x) :
    Settles o.failOn? c' x := by
  cases hx with
  | flag hf hi => exact .flag hf hi
  | unknownFlag hf hi => exact .unknownFlag hf hi
  | config hf hn hi => exact .config hf (h.failOn hf ▸ hn) hi
  | unknownConfig hf hn hi => exact .unknownConfig hf (h.failOn hf ▸ hn) hi
  | default hf hn => exact .default hf (h.failOn hf ▸ hn)

theorem Chooses.of_alike {x : Except CheckError (List Rule)} (hx : Chooses o c x) :
    Chooses o c' x :=
  hx.congr rfl rfl h.preset

/-- An audit looks at the limits and at the rules that are switched off, and at nothing else. -/
theorem evaluate_of_alike (rules : List Rule) (d : Document) (url : String) (time : Timestamp) :
    Auditor.evaluate ⟨rules, c⟩ d url time = Auditor.evaluate ⟨rules, c'⟩ d url time := by
  obtain ⟨preset?, failOn?, limits, settings⟩ := c
  obtain ⟨preset?', failOn?', limits', settings'⟩ := c'
  obtain ⟨-, -, rfl, rfl⟩ := h
  rfl

end

/-- Two runs with the same options, of the same page at the same time, whose configurations differ at
most in values that the options override. -/
structure Beside (s s' : Surroundings) (config? config?' : Option String) (o : CheckOptions) : Prop where
  config : ∃ c c', Loads s.disk (source s o.path config?) (.ok c) ∧
    Loads s'.disk (source s' o.path config?') (.ok c') ∧ c.AlikeFor o c'
  page : ∀ x, Reads s o.path x ↔ Reads s' o.path x
  time : s.time = s'.time

section
variable {parse : Html.Parser} {s s' : Surroundings} {config? config?' : Option String}
  {o : CheckOptions}

theorem Loads.unique {disk : Disk} {source : ConfigSource} {x y : Except CheckError Config}
    (hx : Loads disk source x) (hy : Loads disk source y) : x = y :=
  (loads_iff.mp hx).symm.trans (loads_iff.mp hy)

theorem Beside.firstFailure (h : Beside s s' config? config?' o) {e : CheckError}
    (he : FirstFailure s config? o e) : FirstFailure s' config?' o e := by
  obtain ⟨c, c', hc, hc', alike⟩ := h.config
  cases he with
  | config config => exact nomatch config.unique hc
  | impact config impact =>
    obtain rfl := Except.ok.inj (config.unique hc)
    exact .impact hc' (impact.of_alike alike)
  | rules config impact rules =>
    obtain rfl := Except.ok.inj (config.unique hc)
    exact .rules hc' (impact.of_alike alike) (rules.of_alike alike)
  | page config impact rules page =>
    obtain rfl := Except.ok.inj (config.unique hc)
    exact .page hc' (impact.of_alike alike) (rules.of_alike alike) ((h.page _).mp page)

theorem Beside.made (h : Beside s s' config? config?' o) {p : Plan} (hp : p.Made s config? o) :
    ∃ c', p.config.AlikeFor o c' ∧ { p with config := c' }.Made s' config?' o := by
  obtain ⟨c, c', hc, hc', alike⟩ := h.config
  obtain rfl := Except.ok.inj (hp.config.unique hc)
  exact ⟨c', alike, hc', hp.impact.of_alike alike, hp.rules.of_alike alike, (h.page _).mp hp.page⟩

theorem Beside.alike (hparse : parse.YieldsRoot) (h : Beside s s' config? config?' o) :
    (run parse s config? o).Alike (run parse s' config?' o) := by
  rcases exists_firstFailure_or_made s config? o with ⟨e, he⟩ | ⟨p, hp⟩
  · exact (run_of_firstFailure he).alike (run_of_firstFailure (h.firstFailure he))
  · obtain ⟨c', alike, hp'⟩ := h.made hp
    obtain ⟨report, evaluated, ending⟩ := run_of_made hparse hp
    obtain ⟨report', evaluated', ending'⟩ := run_of_made hparse hp'
    rw [h.time, evaluate_of_alike alike] at evaluated
    obtain rfl := Except.ok.inj (evaluated.symm.trans evaluated')
    exact ending.trans ending'.symm

end

/-! ## Every run -/

/-- **How a check ends.** Some stage fails, or all are passed. -/
structure Staged (parse : Html.Parser) (s : Surroundings) (config? : Option String) (o : CheckOptions)
    (ending : Ending) : Prop where
  decided : (∃ e, FirstFailure s config? o e) ∨ ∃ p : Plan, p.Made s config? o
  failed : ∀ e, FirstFailure s config? o e → ending.FailsWith e
  /-- What is reported tells the failure from all others that a check with these options can have. -/
  told : ∀ e, FirstFailure s config? o e → ∀ s' config?' e', FirstFailure s' config?' o e' →
    ending.error? = some e'.message → e = e'
  passed : ∀ p : Plan, p.Made s config? o → ∃ a report,
    Auditor.ofRules p.rules p.config = .ok a ∧
    a.evaluate (.ofParsed (parse p.html)) (o.url?.getD p.name) s.time = .ok report ∧
    report.Prints o.format ending.stdout ∧ ending.error? = none
  /-- A text that is no configuration, or allows no finding, is refused whatever the options are. -/
  refused : ∀ path text, (source s o.path config?).path? = some path → s.disk.text? path = some text →
    (Config.spelled? text = none ∨
      ∃ c, Config.spelled? text = some c ∧ c.limits.maxNodesPerRule = 0) →
    ending.FailsWith (.config path)
  /-- An impact on the command line hides the one in the configuration. -/
  impactHidden : o.failOn?.isSome → ∀ cause, ¬ FirstFailure s config? o (.configImpact cause)
  /-- Rules or a preset on the command line hide the preset in the configuration. -/
  presetHidden : o.preset?.isSome ∨ o.rules?.isSome →
    ∀ name, ¬ FirstFailure s config? o (.unknownPreset name)

theorem staged_of_alike {parse : Html.Parser} (hparse : parse.YieldsRoot) {s : Surroundings}
    {config? : Option String} {o : CheckOptions} {ending : Ending}
    (alike : ending.Alike (run parse s config? o)) : Staged parse s config? o ending where
  decided := exists_firstFailure_or_made s config? o
  failed _ he := (run_of_firstFailure he).of_alike alike
  told _ he _ _ _ he' herror :=
    he.eq_of_message he' (Option.some.inj
      (((run_of_firstFailure he).of_alike alike).error?.symm.trans herror))
  passed p hp := by
    obtain ⟨report, evaluated, made⟩ := run_of_made hparse hp
    have made := alike.trans made
    exact ⟨_, report, hp.rules.built, evaluated, Report.prints_iff.mpr made.stdout, made.error?⟩
  refused path text hpath ht hbad := by
    refine (run_of_firstFailure (.config ?_)).of_alike alike
    rcases hbad with hc | ⟨c, hc, h0⟩
    · exact .malformed hpath ht hc
    · exact .noFindings hpath ht hc h0
  impactHidden hf cause he := by simp [he.failOn?_eq_none] at hf
  presetHidden hp name he := by
    obtain ⟨hrules, hpreset⟩ := he.nothing_asked
    simp [hrules, hpreset] at hp

/-- The end of the program where a check is asked for. -/
def ending (parse : Html.Parser) (s : Surroundings) (verbose : Bool) (config? : Option String)
    (o : CheckOptions) : Ending :=
  Program.answer parse s (.run ⟨verbose, config?, .check o⟩)

/-- The program only chooses which lines of the log to show. -/
theorem alike_run (parse : Html.Parser) (s : Surroundings) (verbose : Bool) (config? : Option String)
    (o : CheckOptions) : (ending parse s verbose config? o).Alike (run parse s config? o) := by
  unfold ending Program.answer Program.runCommand
  dsimp only
  generalize run parse s config? o = ending
  exact ⟨rfl, rfl, rfl⟩

/-- **The stages of a check.** Whatever the options, the configuration and the page, and for every parser
that yields a root: if a stage fails, the run prints nothing, exits with status 1 and reports the error
of the first that does, which no other failure under these options would. Otherwise it prints the report
of the plan in the format asked for. What an option overrides makes no difference to how the run ends,
whether it is valid or not. -/
theorem stages_of_check (parse : Html.Parser) (hparse : parse.YieldsRoot) (s : Surroundings)
    (verbose : Bool) (config? : Option String) (o : CheckOptions) :
    Staged parse s config? o (ending parse s verbose config? o) ∧
    ∀ s' verbose' config?', Beside s s' config? config?' o →
      (ending parse s verbose config? o).Alike (ending parse s' verbose' config?' o) :=
  ⟨staged_of_alike hparse (alike_run parse s verbose config? o), fun s' verbose' config?' beside =>
    ((alike_run parse s verbose config? o).trans (beside.alike hparse)).trans
      (alike_run parse s' verbose' config?' o).symm⟩

/-- Surroundings with a configuration and nothing else. -/
def pageless (text : String) : Surroundings where
  disk := ⟨fun _ => none, fun _ => false, fun path =>
    if path = "lint.toml" then some text.toUTF8 else none⟩
  directories := {}
  stdin := .empty
  time := default

theorem text?_pageless (text : String) : (pageless text).disk.text? "lint.toml" = some text := by
  show String.fromUTF8? text.toUTF8 = some text
  rw [String.fromUTF8?, String.toUTF8_eq_toByteArray, dif_pos text.isValidUTF8]
  rfl

/-- A check of the language of a page, and of nothing else. -/
theorem chooses_language {o : CheckOptions} (h : o.rules? = some "html-has-lang") (c : Config) :
    Chooses o c (.ok [.htmlHasLang]) := by
  have ids : (Text.parts ',' "html-has-lang").map Text.trim = ["html-has-lang"] := by
    decide +kernel
  have chosen : (Selection.ofIds ((Text.parts ',' "html-has-lang").map Text.trim)).chosen =
      [.htmlHasLang] := by
    rw [(Selection.selected_ofIds _).chosen, ids]
    rfl
  exact chosen ▸ .ids h

/-- The report on the language of the empty page. -/
def languageReport : Report where
  url := "stdin"
  violations := [Rule.htmlHasLang.violation
    [⟨"<html>", ["html"], "The <html> element does not have a lang attribute"⟩]]
  timestamp := default

/-- An impact and a preset that there are not, and no page: the first of the mistakes that counts is
reported. Where both values are overridden, an empty configuration does as well, and where there is a
page too, no stage fails and what the check has found is printed. -/
theorem stages_of_check_mistakes :
    let answer := fun text => ending Html.parse (pageless text) false (some "lint.toml")
    let text := "fail_on = \"dire\"\npreset = \"strict\"\n"
    (answer text { path := "page.html" }).FailsWith (.configImpact (.unknownImpact "dire")) ∧
    (answer text { path := "page.html", failOn? := some "serious" }).FailsWith
      (.unknownPreset "strict") ∧
    (answer text { path := "page.html", failOn? := some "serious", preset? := some .basic }).FailsWith
      (.unreadable "page.html") ∧
    (answer text { path := "page.html", failOn? := some "serious", preset? := some .basic }).Alike
      (answer "" { path := "page.html", failOn? := some "serious", preset? := some .basic }) ∧
    (answer text
      { failOn? := some "serious", rules? := some "html-has-lang", format := .compact }).stdout =
        "stdin: serious [html-has-lang] html: The <html> element does not have a lang attribute\n" := by
  intro answer text
  have spelled : Config.spelled? text = some { failOn? := some "dire", preset? := some "strict" } := by
    decide +kernel
  have loaded : ∀ o : CheckOptions, Loads (pageless text).disk
      (source (pageless text) o.path (some "lint.toml"))
      (.ok { failOn? := some "dire", preset? := some "strict" }) := fun o =>
    .read rfl (text?_pageless _) spelled (by decide)
  have empty : ∀ o : CheckOptions, Loads (pageless "").disk
      (source (pageless "") o.path (some "lint.toml")) (.ok {}) := fun o =>
    .read rfl (text?_pageless _) (by decide +kernel) (by decide)
  have serious : ∀ c, Settles (some "serious") c (.ok .serious) := fun c =>
    .flag rfl (by decide +kernel)
  have unread : ∀ text, Reads (pageless text) "page.html" (.error (.unreadable "page.html")) :=
    fun text => .badFile (by decide) rfl
  have staged := fun o =>
    (stages_of_check Html.parse Html.yieldsRoot_parse (pageless text) false (some "lint.toml") o).1
  have noImpact : Impact.ofName? "dire" = none := by decide +kernel
  have noPreset : Preset.ofName? "strict" = none := by decide +kernel
  refine ⟨(staged _).failed _ (.impact (loaded _) (.unknownConfig rfl rfl noImpact)),
    (staged _).failed _ (.rules (loaded _) (serious _) (.unknownConfig rfl rfl rfl noPreset)),
    (staged _).failed _ (.page (loaded _) (serious _) (.flag rfl rfl) (unread _)),
    ?overridden, ?passed⟩
  case overridden =>
    exact (stages_of_check Html.parse Html.yieldsRoot_parse (pageless text) false (some "lint.toml") _).2
      _ _ _ ⟨⟨_, _, loaded _, empty _, by simp, by simp, rfl, rfl⟩, fun x => by
        rw [reads_iff, reads_iff]; rfl, rfl⟩
  case passed =>
    have made : Plan.Made (pageless text) (some "lint.toml")
        { failOn? := some "serious", rules? := some "html-has-lang", format := .compact }
        ⟨_, .serious, [.htmlHasLang], "", "stdin"⟩ :=
      ⟨loaded _, serious _, chooses_language rfl _, .input rfl (by decide +kernel)⟩
    obtain ⟨a, report, built, evaluated, printed, -⟩ := (staged _).passed _ made
    obtain rfl := (Auditor.ofRules_eq_ok_iff.mp built).2
    rw [Report.prints_iff.mp printed]
    have found : Auditor.evaluate ⟨[.htmlHasLang], { failOn? := some "dire", preset? := some "strict" }⟩
        (.ofParsed (Html.parse "")) "stdin" default = .ok languageReport := by
      decide +kernel
    obtain rfl := Except.ok.inj (found.symm.trans evaluated)
    decide +kernel

end Check

end PageAudit
