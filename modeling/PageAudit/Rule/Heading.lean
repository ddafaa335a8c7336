import PageAudit.Rule.Basic
import PageAudit.Text.Blank

/-!
# Headings

One heading of level one, no level left out on the way down, no empty heading. Each heading is compared
with the one before it; no outline is kept.
-/

namespace PageAudit.Rule

def headingTags : List String := ["h1", "h2", "h3", "h4", "h5", "h6"]

def headings (p : Page) : List Element :=
  p.elements headingTags

/-- The level that the tag of a heading names; 0 for any other tag. -/
def level (e : Element) : Nat :=
  match headingTags.idxOf? e.tag with
  | some i => i + 1
  | none => 0

/-- The element before number `i`. -/
def before? (xs : List Element) : Nat → Option Element
  | 0 => none
  | i + 1 => xs[i]?

/-- A test of headings that are more than one level below the one before. -/
def skipsLevel (xs : List Element) : Test := fun i e => do
  let previous := level (← before? xs i)
  let current := level e
  if previous + 1 < current then
    some ("Heading level jumps from h" ++ toString previous ++ " to h" ++ toString current)
  else none

def pageHasHeadingOne : Rule where
  id := "page-has-heading-one"
  impact := .moderate
  description := "Ensures the page, or at least one of its frames, contains a level-one heading"
  help := "Page should contain a level-one heading"
  tags := ["cat.semantics", "best-practice"]
  reportsPass := true
  check p := .ofPage <|
    if (p.elements ["h1"]).isEmpty then
      some ((Locator.singleton p.root).finding "Page does not have an <h1> heading")
    else none

def multipleH1 : Rule where
  id := "multiple-h1"
  impact := .moderate
  description := "Ensures the page has a single level-one heading"
  help := "Page should contain only one level-one heading"
  tags := ["cat.semantics", "best-practice"]
  check p := .ofScan (p.elements ["h1"]) <| findingsIn .nth
    (fun i _ => if i = 0 then none else some "Page already has an <h1> heading") (p.elements ["h1"])

def headingOrder : Rule where
  id := "heading-order"
  impact := .moderate
  description := "Ensures the order of headings is semantically correct"
  help := "Heading levels should only increase by one"
  tags := ["cat.semantics", "best-practice"]
  reportsPass := true
  check p := .ofScan (headings p) <| findingsIn .nth (skipsLevel (headings p)) (headings p)

def emptyHeading : Rule where
  id := "empty-heading"
  impact := .minor
  description := "Ensures headings have discernible text"
  help := "Headings should not be empty"
  tags := ["cat.name-role-value", "best-practice"]
  check p := .ofScan (headings p) <| findingsIn .nth (fun _ e =>
      if Text.isBlankText e.textContent then some "Heading has no text content" else none)
    (headings p)

end PageAudit.Rule
