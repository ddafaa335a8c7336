import PageAudit.Rule.Name

/-!
# Labels of form fields

A field has a label if a `label` element points at its `id`, or if it has an `aria-label` or
`aria-labelledby` attribute, whatever that says.
-/

namespace PageAudit.Rule

/-- Inputs of these types take no label. -/
def unlabeledTypes : List String := ["hidden", "submit", "button", "reset", "image"]

/-- Inputs that take a label, text areas and selections. -/
def formFields (p : Page) : List Element :=
  (p.elements ["input", "textarea", "select"]).filter fun e =>
    e.tag != "input" || !unlabeledTypes.contains e.inputType

/-- The ids that labels point at. -/
def labelTargets (p : Page) : List String :=
  (p.elements ["label"]).filterMap (·.attr? "for")

def isLabeled (targets : List String) (e : Element) : Bool :=
  (e.attr? "id").any (fun id => id != "" && targets.contains id)
    || e.hasAttr "aria-label" || e.hasAttr "aria-labelledby"

/-- A test of the fields without a label. -/
def unlabeled (targets : List String) : Test := fun _ e =>
  if isLabeled targets e then none
  else some "Form element has no <label for> pointing at its id, no aria-label and no aria-labelledby attribute"

/-- A test of the fields with a placeholder and no label. -/
def labeledByPlaceholder (targets : List String) : Test := fun _ e =>
  (e.attr? "placeholder").bind fun placeholder =>
    if isLabeled targets e then none
    else some ("Form element relies on its placeholder \"" ++ placeholder ++ "\" as its only label")

def label : Rule where
  id := "label"
  impact := .critical
  description := "Ensures every form element has a label"
  help := "Form elements must have labels"
  tags := ["cat.forms", "wcag2a", "wcag131", "wcag412"]
  reportsPass := true
  check p := .ofScan (formFields p) <|
    findingsIn .nth (unlabeled (labelTargets p)) (formFields p)

def placeholderAsLabel : Rule where
  id := "placeholder-as-label"
  impact := .moderate
  description := "Ensures placeholder text is not the only label of a form element"
  help := "Placeholder text disappears on input and is not a substitute for a label"
  tags := ["cat.forms", "best-practice"]
  check p := .ofScan ((formFields p).filter (·.hasAttr "placeholder")) <|
    findingsIn .nth (labeledByPlaceholder (labelTargets p)) (formFields p)

end PageAudit.Rule
