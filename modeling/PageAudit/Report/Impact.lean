import PageAudit.Text.Blank
import PageAudit.Text.Case

/-!
# Impact

How badly a failure affects the people who rely on assistive technology, from minor to critical.
-/

namespace PageAudit

inductive Impact where
  | minor
  | moderate
  | serious
  | critical
  deriving DecidableEq, Repr, Inhabited

namespace Impact

def all : List Impact := [minor, moderate, serious, critical]

def rank : Impact → Nat
  | minor => 0
  | moderate => 1
  | serious => 2
  | critical => 3

instance : LE Impact := ⟨fun a b => a.rank ≤ b.rank⟩

instance (a b : Impact) : Decidable (a ≤ b) := inferInstanceAs (Decidable (a.rank ≤ b.rank))

def name : Impact → String
  | minor => "minor"
  | moderate => "moderate"
  | serious => "serious"
  | critical => "critical"

/-- The impact of that exact name. -/
def ofExactName? (s : String) : Option Impact :=
  all.find? (·.name == s)

/-- The impact of a name, whatever its case and the blanks around it. -/
def ofName? (s : String) : Option Impact :=
  ofExactName? (Text.lower (Text.trim s))

end Impact

end PageAudit
