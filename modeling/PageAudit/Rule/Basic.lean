import PageAudit.Document.Locator
import PageAudit.Report.Limits

/-!
# Rules

A rule looks at a page and answers whether it applies and what it found. Its identity, impact and
wording are fixed and never depend on the page.

Most rules go through a numbered list of elements. `findingsIn` turns such a list and a test into
findings whose numbers rise; `firstFindings` does the same and stops early.
-/

namespace PageAudit

/-- A document with a root, and the limits that a rule has to keep. -/
structure Page where
  document : Document
  root : Element
  limits : Limits

namespace Page

/-- The page of a document, if it has a root. -/
def ofDocument? (d : Document) (limits : Limits) : Option Page :=
  d.root.map fun root => ⟨d, root, limits⟩

/-- The elements with one of the `tags`, in document order. -/
def elements (p : Page) (tags : List String) : List Element :=
  p.root.findAll tags

end Page

/-- What a rule saw on a page. A rule that does not apply yields neither a pass nor a violation. -/
structure Evaluation where
  applicable : Bool
  findings : List Finding
  deriving DecidableEq, Repr

namespace Evaluation

/-- A rule about the page as a whole, which applies to every page. -/
def ofPage (finding? : Option Finding) : Evaluation :=
  ⟨true, finding?.toList⟩

/-- A rule about elements, which applies if it has looked at one. -/
def ofScan (scanned : List Element) (findings : List Finding) : Evaluation :=
  ⟨!scanned.isEmpty, findings⟩

end Evaluation

/-- A test of the element with a given number in a list: what is wrong with it, if anything. -/
abbrev Test := Nat → Element → Option String

/-- The findings of a numbered list, each located by its number. -/
def findingsIn (locate : Element → Nat → Locator) (test : Test) (xs : List Element) : List Finding :=
  xs.zipIdx.filterMap fun (e, i) => (test i e).map fun summary => (locate e i).finding summary

/-- The first `cap` findings of a list numbered from `i`. Nothing is tested after the last of them. -/
def firstFindings (locate : Element → Nat → Locator) (test : Test) :
    Nat → Nat → List Element → List Finding
  | 0, _, _ => []
  | _ + 1, _, [] => []
  | cap + 1, i, e :: rest =>
    match test i e with
    | some summary => (locate e i).finding summary :: firstFindings locate test cap (i + 1) rest
    | none => firstFindings locate test (cap + 1) (i + 1) rest

structure Rule where
  id : String
  impact : Impact
  description : String
  help : String
  helpUrl : String := "https://dequeuniversity.com/rules/axe/4.8/" ++ id
  tags : List String := []
  /-- A page without findings is reported as passed. -/
  reportsPass : Bool := false
  /-- Findings are reported; otherwise they are only logged. -/
  surfaces : Bool := true
  check : Page → Evaluation

namespace Rule

def violation (r : Rule) (findings : List Finding) : RuleResult :=
  { id := r.id, impact := r.impact, description := r.description, help := r.help,
    helpUrl := r.helpUrl, tags := r.tags, nodes := findings }

def pass (r : Rule) : PassResult :=
  ⟨r.id, r.description, r.help⟩

end Rule

end PageAudit
