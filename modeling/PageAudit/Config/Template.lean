import PageAudit.Text.Words

/-!
# A configuration to start from

The text of a new configuration file. It sets everything to its default.
-/

namespace PageAudit.Config

/-- The lines of a new configuration file. -/
def templateLines : List String :=
  ["# a11y-lint configuration",
   "",
   "# Rule preset: \"full\" (every rule) or \"basic\" (core WCAG A/AA checks)",
   "preset = \"full\"",
   "",
   "# Exit with status 1 when a violation at or above this impact is found:",
   "# \"minor\", \"moderate\", \"serious\" or \"critical\"",
   "fail_on = \"minor\"",
   "",
   "[limits]",
   "# Findings kept per violated rule; the rest are counted but not listed",
   "max_nodes_per_rule = 5",
   "# color-contrast stops scanning after this many findings",
   "max_contrast_findings = 10",
   "",
   "# Rule configurations, keyed by rule id",
   "",
   "# [rules.link-same-text-diff-target]",
   "# enabled = false",
   "",
   "# [rules.meta-viewport]",
   "# enabled = false"]

def template : String :=
  Text.ofLines templateLines

end PageAudit.Config
