import PageAudit.Report.Basic

/-!
# Reports as text

A text in colours for a terminal, and a compact one with a line for each finding.
-/

namespace PageAudit

namespace Impact

/-- The escape sequence of the impact's colour. -/
def paint : Impact → String
  | minor => "\x1b[34m"
  | moderate => "\x1b[33m"
  | serious => "\x1b[31m"
  | critical => "\x1b[35m"

end Impact

namespace Report

def plain : String := "\x1b[0m"

def findingText (f : Finding) : String :=
  "  --> " ++ ", ".intercalate f.target ++ "\n      " ++ f.html ++ "\n      " ++ f.failureSummary
    ++ "\n"

/-- How many findings are left out, where some are. -/
def hiddenText (r : RuleResult) : String :=
  if 0 < r.hidden then "  ... and " ++ toString r.hidden ++ " more\n" else ""

def violationText (r : RuleResult) : String :=
  r.impact.paint ++ r.impact.name ++ plain ++ " [" ++ r.id ++ "] " ++ r.help ++ "\n"
    ++ String.join (r.nodes.map findingText) ++ hiddenText r
    ++ "  = help: " ++ r.helpUrl ++ "\n\n"

/-- The colour of the last line: that of the gravest kind of violation, or green. -/
def summaryPaint (r : Report) : String :=
  if 0 < r.countAt .critical + r.countAt .serious then "\x1b[31m"
  else if 0 < r.countAt .moderate + r.countAt .minor then "\x1b[33m"
  else "\x1b[32m"

def summaryText (r : Report) : String :=
  r.summaryPaint ++ r.url ++ ": " ++ toString (r.countAt .critical) ++ " critical, "
    ++ toString (r.countAt .serious) ++ " serious, " ++ toString (r.countAt .moderate)
    ++ " moderate, " ++ toString (r.countAt .minor) ++ " minor; " ++ toString r.passes.length
    ++ " rule(s) passed" ++ plain ++ "\n"

/-- The report for a terminal. -/
def text (r : Report) : String :=
  String.join (r.violations.map violationText) ++ r.summaryText

/-- One line of the compact form. -/
def compactLine (r : Report) (v : RuleResult) (f : Finding) : String :=
  r.url ++ ": " ++ v.impact.name ++ " [" ++ v.id ++ "] " ++ ", ".intercalate f.target ++ ": "
    ++ f.failureSummary ++ "\n"

/-- A line for each listed finding of each violation. -/
def compact (r : Report) : String :=
  String.join (r.violations.flatMap fun v => v.nodes.map (r.compactLine v))

end Report

end PageAudit
