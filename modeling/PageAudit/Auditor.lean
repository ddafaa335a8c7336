import PageAudit.Rule.Basic
import PageAudit.Config.Basic
import PageAudit.Log

/-!
# The auditor

An auditor is an ordered list of rules with distinct ids and a configuration. Each rule has one outcome
on a page; the report and the log are read off the outcomes.
-/

namespace PageAudit

inductive AuditError where
  | invalidDocument
  | duplicateRule (id : String)
  deriving DecidableEq, Repr

namespace AuditError

def code : AuditError → String
  | invalidDocument => "a11y_lint::invalid_document"
  | duplicateRule _ => "a11y_lint::duplicate_rule"

def help? : AuditError → Option String
  | invalidDocument =>
    some "The HTML could not be turned into a document tree; check the parser input"
  | duplicateRule _ => none

def message : AuditError → String
  | invalidDocument => "Invalid document: no root element"
  | duplicateRule id => "Duplicate rule id: " ++ id

end AuditError

structure Auditor where
  rules : List Rule
  config : Config

/-- What became of one rule on one page. -/
inductive Outcome where
  | disabled
  | notApplicable
  | passed (entry : PassResult)
  /-- Nothing was found, and the rule does not report that. -/
  | clean
  | violated (entry : RuleResult)
  /-- Something was found, and the rule does not report it. -/
  | withheld (count : Nat)
  deriving DecidableEq, Repr

namespace Auditor

/-- The first text that stands in the list before, or in `seen`. -/
def firstRepeated? (seen : List String) : List String → Option String
  | [] => none
  | id :: rest => if seen.contains id then some id else firstRepeated? (id :: seen) rest

/-- An auditor of these rules, unless two of them share an id. -/
def ofRules (rules : List Rule) (config : Config) : Except AuditError Auditor :=
  match firstRepeated? [] (rules.map (·.id)) with
  | some id => .error (.duplicateRule id)
  | none => .ok ⟨rules, config⟩

def outcome (a : Auditor) (p : Page) (r : Rule) : Outcome :=
  if !a.config.isEnabled r.id then .disabled
  else
    let evaluation := r.check p
    if !evaluation.applicable then .notApplicable
    else if evaluation.findings.isEmpty then
      if r.reportsPass then .passed r.pass else .clean
    else if r.surfaces then .violated (r.violation evaluation.findings)
    else .withheld evaluation.findings.length

end Auditor

namespace Outcome

def violation? : Outcome → Option RuleResult
  | violated entry => some entry
  | _ => none

def pass? : Outcome → Option PassResult
  | passed entry => some entry
  | _ => none

def logLine? (id : String) : Outcome → Option LogLine
  | disabled => some ⟨.debug, "Skipping disabled rule: " ++ id⟩
  | notApplicable => some ⟨.debug, "Rule " ++ id ++ " not applicable"⟩
  | withheld count =>
    some ⟨.debug, "Rule " ++ id ++ " produced " ++ toString count ++ " finding(s), not reported"⟩
  | _ => none

end Outcome

/-- The report of one page, and the log of how it came about. -/
structure Audited where
  report : Report
  log : List LogLine

namespace Auditor

/-- The report of a page: violations and passes in the order of the rules, cut to the limits. -/
def report (a : Auditor) (p : Page) (source : String) (time : Timestamp) : Report :=
  let outcomes := a.rules.map (a.outcome p)
  Report.shape
    { url := source
      violations := outcomes.filterMap (·.violation?)
      passes := outcomes.filterMap (·.pass?)
      timestamp := time }
    a.config.limits

/-- The log of the rules, then the totals. -/
def log (a : Auditor) (p : Page) (r : Report) : List LogLine :=
  (a.rules.filterMap fun rule => (a.outcome p rule).logLine? rule.id)
    ++ [⟨.info, "Evaluated " ++ r.url ++ ": " ++ toString r.violations.length ++ " violation(s), "
        ++ toString r.passes.length ++ " pass(es)"⟩]

/-- Audits a document, unless it has no root. -/
def audit (a : Auditor) (d : Document) (source : String) (time : Timestamp) :
    Except AuditError Audited :=
  match Page.ofDocument? d a.config.limits with
  | none => .error .invalidDocument
  | some p =>
    let report := a.report p source time
    .ok ⟨report, a.log p report⟩

/-- The report of a document. -/
def evaluate (a : Auditor) (d : Document) (source : String) (time : Timestamp) :
    Except AuditError Report :=
  (a.audit d source time).map (·.report)

end Auditor

end PageAudit
