import PageAudit.Config.Basic
import PageAudit.Toml.Reader

/-!
# Reading a configuration

Keys that are not known are left alone. A record may be a table, a list with the settings in order, or
a date, which sets nothing.
-/

namespace PageAudit

namespace Toml

/-- The settings of the named keys, where the value is a record. -/
def fields? (keys : List String) : Toml → Option (List (Option Toml))
  | .table entries => some (keys.map (get? entries))
  | .array items => some (keys.zipIdx.map fun (_, i) => items[i]?)
  | .date => some (keys.map fun _ => none)
  | _ => none

/-- A setting that may be missing. -/
def optional? {α : Type} (read : Toml → Option α) : Option Toml → Option (Option α)
  | some v => (read v).map some
  | none => some none

def text? : Toml → Option String
  | .string content => some content
  | _ => none

def flag? : Toml → Option Bool
  | .boolean value => some value
  | _ => none

/-- A number that is not negative. -/
def count? : Toml → Option Nat
  | .integer value => if 0 ≤ value then some value.toNat else none
  | _ => none

end Toml

namespace Limits

def ofToml? (v : Toml) : Option Limits :=
  match v.fields? ["max_nodes_per_rule", "max_contrast_findings"] with
  | some [nodes, findings] => do
    let defaults : Limits := {}
    let nodes ← Toml.optional? Toml.count? nodes
    let findings ← Toml.optional? Toml.count? findings
    some ⟨nodes.getD defaults.maxNodesPerRule, findings.getD defaults.maxContrastFindings⟩
  | _ => none

end Limits

namespace RuleSettings

def ofToml? (id : String) (v : Toml) : Option RuleSettings :=
  match v.fields? ["enabled"] with
  | some [enabled] => (Toml.optional? Toml.flag? enabled).map fun enabled? => ⟨id, enabled?⟩
  | _ => none

/-- The settings of all rules: a table with a record for each. -/
def allOfToml? : Toml → Option (List RuleSettings)
  | .table entries => entries.mapM fun (id, v) => ofToml? id v
  | _ => none

end RuleSettings

namespace Config

/-- The configuration in a table, before its values are checked. -/
def ofToml? (entries : List (String × Toml)) : Option Config := do
  let preset? ← Toml.optional? Toml.text? (Toml.get? entries "preset")
  let failOn? ← Toml.optional? Toml.text? (Toml.get? entries "fail_on")
  let limits ← Toml.optional? Limits.ofToml? (Toml.get? entries "limits")
  let rules ← Toml.optional? RuleSettings.allOfToml? (Toml.get? entries "rules")
  some ⟨preset?, failOn?, limits.getD {}, rules.getD []⟩

/-- The configuration that a text spells. A violation has to keep one finding at least. -/
def parse (s : String) : Except ConfigError Config :=
  match (Toml.parse? s).bind ofToml? with
  | none => .error .parse
  | some c =>
    if c.limits.maxNodesPerRule = 0 then .error (.invalidLimit "max_nodes_per_rule") else .ok c

end Config

end PageAudit
