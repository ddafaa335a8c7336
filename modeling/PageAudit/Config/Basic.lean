import PageAudit.Report.Limits

/-!
# Configuration

What a configuration file can set: the preset, the impact at which a run fails, the limits, and which
rules are switched off. Everything has a default.
-/

namespace PageAudit

inductive ConfigError where
  /-- The text is not TOML, or a value has the wrong type. -/
  | parse
  | unknownImpact (name : String)
  | invalidLimit (key : String)
  deriving DecidableEq, Repr

namespace ConfigError

def code : ConfigError → String
  | parse => "a11y_lint::config::parse"
  | unknownImpact _ => "a11y_lint::config::impact"
  | invalidLimit _ => "a11y_lint::config::limit"

def help? : ConfigError → Option String
  | parse => none
  | unknownImpact _ => some "Valid values: minor, moderate, serious, critical"
  | invalidLimit _ => some "Remove the key to use the default, or set it to 1 or more"

/-- The wording; what is wrong with a text that cannot be parsed is left open. -/
def message : ConfigError → String
  | parse => "Failed to parse config"
  | unknownImpact name => "Unknown impact \x60" ++ name ++ "\x60"
  | invalidLimit key => "Limit \x60" ++ key ++ "\x60 must be at least 1"

end ConfigError

/-- The settings of one rule. -/
structure RuleSettings where
  id : String
  enabled? : Option Bool
  deriving DecidableEq, Repr

structure Config where
  preset? : Option String := none
  failOn? : Option String := none
  limits : Limits := {}
  rules : List RuleSettings := []
  deriving DecidableEq, Repr, Inhabited

namespace Config

/-- A rule runs unless its settings switch it off. -/
def isEnabled (c : Config) (id : String) : Bool :=
  match c.rules.find? (·.id == id) with
  | some settings => settings.enabled?.getD true
  | none => true

/-- The impact at which a run fails: minor unless set otherwise. -/
def failOnImpact (c : Config) : Except ConfigError Impact :=
  match c.failOn? with
  | none => .ok .minor
  | some name =>
    match Impact.ofName? name with
    | some impact => .ok impact
    | none => .error (.unknownImpact name)

end Config

end PageAudit
