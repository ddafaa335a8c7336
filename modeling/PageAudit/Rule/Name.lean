import PageAudit.Rule.Basic
import PageAudit.Text.Words

/-!
# Names of images, buttons and links

An element has a name if its text or one of its naming attributes is not blank. Images are asked for an
`alt` attribute, which may be empty.
-/

namespace PageAudit

namespace Element

/-- The text by which assistive technology announces an element: its content, or else the first of the
`fallbacks` attributes that is not blank, single-spaced. -/
def accessibleName? (fallbacks : List String) (e : Element) : Option String :=
  let candidates := e.textContent :: fallbacks.filterMap e.attr?
  (candidates.map Text.normalize).find? (· ≠ "")

/-- The type of an input, `text` if it has none. -/
def inputType (e : Element) : String :=
  match e.attr? "type" with
  | some value => Text.lower (Text.trim value)
  | none => "text"

end Element

namespace Rule

/-! ## The numbered lists -/

def images (p : Page) : List Element :=
  p.elements ["img"]

def buttonTypes : List String := ["button", "submit", "reset"]

/-- Buttons, and inputs that are buttons by type. -/
def buttons (p : Page) : List Element :=
  (p.elements ["button", "input"]).filter fun e =>
    e.tag == "button" || buttonTypes.contains e.inputType

/-- Anchors with a destination. -/
def links (p : Page) : List Element :=
  (p.elements ["a"]).filter (·.hasAttr "href")

def buttonName? (e : Element) : Option String :=
  e.accessibleName? ["value", "aria-label", "title"]

def linkName? (e : Element) : Option String :=
  e.accessibleName? ["aria-label", "title"]

/-- A test that only asks for a name. -/
def nameless (name? : Element → Option String) (summary : String) : Test :=
  fun _ e => if (name? e).isNone then some summary else none

/-! ## The rules -/

def imageAlt : Rule where
  id := "image-alt"
  impact := .critical
  description := "Ensures <img> elements have alternate text or a role of none or presentation"
  help := "Images must have alternate text"
  tags := ["cat.text-alternatives", "wcag2a", "wcag111"]
  reportsPass := true
  check p := .ofScan (images p) <| findingsIn .nth (nameless (·.attr? "alt")
    "Element does not have an alt attribute. Add alt text describing the image, or alt=\"\" if it is decorative")
    (images p)

def buttonName : Rule where
  id := "button-name"
  impact := .critical
  description := "Ensures buttons have discernible text"
  help := "Buttons must have discernible text"
  tags := ["cat.name-role-value", "wcag2a", "wcag412"]
  reportsPass := true
  check p := .ofScan (buttons p) <| findingsIn .nth (nameless buttonName?
    "Element has no text content, and no value, aria-label or title attribute") (buttons p)

def linkName : Rule where
  id := "link-name"
  impact := .serious
  description := "Ensures links have discernible text"
  help := "Links must have discernible text"
  tags := ["cat.name-role-value", "wcag2a", "wcag244", "wcag412"]
  reportsPass := true
  check p := .ofScan (links p) <| findingsIn .nth (nameless linkName?
    "Element has no text content, and no aria-label or title attribute") (links p)

end Rule

end PageAudit
