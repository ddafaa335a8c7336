import PageAudit.Report.Basic

/-!
# Limits

Bounds on the findings in a report. Cutting keeps the first findings and the order.
-/

namespace PageAudit

structure Limits where
  /-- Findings kept for each rule in a report. -/
  maxNodesPerRule : Nat := 5
  /-- Findings after which the contrast rule stops scanning. -/
  maxContrastFindings : Nat := 10
  deriving DecidableEq, Repr, Inhabited

namespace Limits

/-- The findings that a result keeps: the limit, but one at the least. -/
def keep (l : Limits) : Nat :=
  max l.maxNodesPerRule 1

end Limits

/-- Cuts every violation and every incomplete result to the limit. -/
def Report.shape (r : Report) (l : Limits) : Report :=
  { r with
    violations := r.violations.map (.truncate l.keep)
    incomplete := r.incomplete.map (.truncate l.keep) }

end PageAudit
