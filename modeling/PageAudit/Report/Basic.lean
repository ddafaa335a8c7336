import PageAudit.Report.Impact
import PageAudit.Timestamp.Basic

/-!
# Reports

What an audit says about one page: the rules that failed with their findings, those that passed, and
those that a person has to look at. A result remembers how many findings it had before it was cut
short.
-/

namespace PageAudit

/-- One occurrence of a rule failing on one element. -/
structure Finding where
  html : String
  target : List String
  failureSummary : String
  deriving DecidableEq, Repr, Inhabited

/-- A rule and its findings. `counted` is the number of findings that was recorded when the result was
made or last cut; it may lag behind. -/
structure RuleResult where
  id : String
  impact : Impact
  description : String
  help : String
  helpUrl : String
  tags : List String
  nodes : List Finding
  counted : Nat := nodes.length
  deriving DecidableEq, Repr, Inhabited

/-- A rule that applied and found nothing. -/
structure PassResult where
  id : String
  description : String
  help : String
  deriving DecidableEq, Repr, Inhabited

structure Report where
  url : String
  violations : List RuleResult := []
  passes : List PassResult := []
  incomplete : List RuleResult := []
  timestamp : Timestamp
  deriving DecidableEq, Repr, Inhabited

namespace RuleResult

/-- The number of findings before any was dropped. -/
def total (r : RuleResult) : Nat :=
  max r.counted r.nodes.length

/-- Keeps the first `max` findings and remembers how many there were. -/
def truncate (max : Nat) (r : RuleResult) : RuleResult :=
  { r with nodes := r.nodes.take max, counted := r.total }

/-- The number of findings that are counted but not listed. -/
def hidden (r : RuleResult) : Nat :=
  r.total - r.nodes.length

end RuleResult

namespace Report

def hasViolations (r : Report) : Bool :=
  !r.violations.isEmpty

/-- Some violation has at least this impact. -/
def hasViolationsAt (r : Report) (impact : Impact) : Bool :=
  r.violations.any fun v => impact ≤ v.impact

def violation? (r : Report) (id : String) : Option RuleResult :=
  r.violations.find? (·.id == id)

def pass? (r : Report) (id : String) : Option PassResult :=
  r.passes.find? (·.id == id)

/-- The number of violations with exactly this impact. -/
def countAt (r : Report) (impact : Impact) : Nat :=
  r.violations.countP (·.impact == impact)

end Report

end PageAudit
