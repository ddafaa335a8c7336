import PageAudit.Catalogue

/-!
# The list of rules

A table of the built-in rules and what the presets hold.
-/

namespace PageAudit.Listing

/-- Spaces behind a text up to a width. -/
def padEnd (width : Nat) (s : String) : String :=
  s.pushn ' ' (width - s.length)

def row (id impact description : String) : String :=
  padEnd 28 id ++ " " ++ padEnd 10 impact ++ " " ++ description ++ "\n"

def ruleRow (r : Rule) : String :=
  row r.id r.impact.name (r.description ++ if r.surfaces then "" else " (not reported)")

def presetRows (p : Preset) : String :=
  let ids := p.rules.map (·.id)
  "  " ++ padEnd 8 p.name ++ " - " ++ toString ids.length ++ " rule(s)\n             "
    ++ ", ".intercalate ids ++ "\n"

def text : String :=
  "Available rules:\n\n" ++ row "Id" "Impact" "Description" ++ "".pushn '-' 100 ++ "\n"
    ++ String.join (Catalogue.rules.map ruleRow) ++ "\nPresets:\n"
    ++ String.join (Preset.all.map presetRows)
    ++ "\nUse --rules to run specific rules, e.g.:\n"
    ++ "  a11y-lint check index.html --rules image-alt,label\n"

end PageAudit.Listing
