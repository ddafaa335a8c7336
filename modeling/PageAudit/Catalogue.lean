import PageAudit.Rule.Name
import PageAudit.Rule.Wording
import PageAudit.Rule.Label
import PageAudit.Rule.Contrast
import PageAudit.Rule.Heading
import PageAudit.Rule.Table
import PageAudit.Rule.Metadata

/-!
# The built-in rules

All rules in the order of a report, the two presets, and selection by id.
-/

namespace PageAudit

namespace Catalogue

/-- Every built-in rule, in report order. -/
def rules : List Rule :=
  [.imageAlt, .label, .placeholderAsLabel, .buttonName, .buttonTextQuality, .linkName,
    .linkTextQuality, .linkSameTextDiffTarget, .colorContrast, .documentTitle, .pageHasHeadingOne,
    .multipleH1, .htmlHasLang, .metaViewport, .headingOrder, .emptyHeading, .tableHeaders,
    .tableCaption]

/-- The rules that report passes, and `color-contrast`. -/
def basicRules : List Rule :=
  [.imageAlt, .label, .buttonName, .linkName, .colorContrast, .documentTitle, .pageHasHeadingOne,
    .htmlHasLang, .metaViewport, .headingOrder]

def rule? (id : String) : Option Rule :=
  rules.find? (·.id == id)

end Catalogue

/-- A selection under way: the rules still to be had, those chosen in the order of the request, and the
ids that name no rule. -/
structure Selection where
  available : List Rule
  chosen : List Rule := []
  unknown : List String := []

namespace Selection

/-- A list without the entry at `index`. The last entry takes its place, so the others may change their
order. -/
def takeOut {α : Type} (xs : List α) (index : Nat) : List α :=
  match xs.getLast? with
  | some last => (xs.set index last).dropLast
  | none => []

/-- Moves the rule with that id to the chosen ones. An id that was chosen before changes nothing. -/
def request (s : Selection) (id : String) : Selection :=
  match s.available.findFinIdx? (·.id == id) with
  | some index =>
    { s with available := takeOut s.available index, chosen := s.chosen ++ [s.available[index]] }
  | none =>
    if s.chosen.any (·.id == id) then s else { s with unknown := s.unknown ++ [id] }

/-- Requests ids one after the other from the built-in rules. -/
def ofIds (ids : List String) : Selection :=
  ids.foldl request ⟨Catalogue.rules, [], []⟩

end Selection

inductive Preset where
  | full
  | basic
  deriving DecidableEq, Repr, Inhabited

namespace Preset

def all : List Preset := [full, basic]

def name : Preset → String
  | full => "full"
  | basic => "basic"

def rules : Preset → List Rule
  | full => Catalogue.rules
  | basic => Catalogue.basicRules

/-- The preset of a name, whatever its case and the blanks around it. -/
def ofName? (s : String) : Option Preset :=
  all.find? fun p => Text.sameName p.name (Text.trim s)

/-- What is said of a name that is no preset's. -/
def unknownMessage (s : String) : String :=
  "unknown preset '" ++ s ++ "' (expected full or basic)"

end Preset

end PageAudit
