import PageAudit.Rule.Basic
import PageAudit.Style
import PageAudit.Color.Contrast
import PageAudit.Numeral.Fixed
import PageAudit.Numeral.Shortest

/-!
# Contrast of text

Only declarations on the element itself count: it has to declare both colours, and size and weight are
taken from the same style. An element whose colours cannot be read keeps its number and is never
flagged.
-/

namespace PageAudit

def Element.style (e : Element) : Style :=
  .parse ((e.attr? "style").getD "")

namespace Rule

def textTags : List String :=
  ["p", "h1", "h2", "h3", "h4", "h5", "h6", "span", "div", "a", "button", "label", "li"]

def declaresColors (style : Style) : Bool :=
  (style.get? "color").isSome && (style.get? "background-color").isSome

/-- Elements with text that declare both colours. -/
def contrastCandidates (p : Page) : List Element :=
  (p.elements textTags).filter fun e => !Text.isBlankText e.textContent && declaresColors e.style

/-- The colours of a style, foreground first, if both can be read. -/
def colors? (style : Style) : Option (Rgb × Rgb) := do
  let foreground ← Rgb.parse? (← style.get? "color")
  let background ← Rgb.parse? (← style.get? "background-color")
  some (foreground, background)

def contrastSummary (foreground background : Rgb) (size? : Option Float) (bold : Bool) : String :=
  let size := match size? with
    | some size => Numeral.shortestText size ++ "px"
    | none => "unspecified"
  let weight := if bold then "bold" else "normal"
  "Element has insufficient color contrast of "
    ++ Numeral.fixed 2 (Contrast.ratio foreground background)
    ++ " (foreground color: " ++ foreground.text ++ ", background color: " ++ background.text
    ++ ", font size: " ++ size ++ ", font weight: " ++ weight
    ++ "). Expected contrast ratio of " ++ (Contrast.Required.ofText size? bold).text ++ ":1"

/-- A test of elements whose colours can be read and contrast too little. -/
def lowContrast : Test := fun _ e => do
  let (foreground, background) ← colors? e.style
  let size? := e.style.fontSize?
  let bold := e.style.isBold
  if (Contrast.Required.ofText size? bold).value ≤ Contrast.ratio foreground background then none
  else some (contrastSummary foreground background size? bold)

def colorContrast : Rule where
  id := "color-contrast"
  impact := .serious
  description :=
    "Ensures the contrast between foreground and background colors meets WCAG 2 AA thresholds"
  help := "Elements must have sufficient color contrast"
  tags := ["cat.color", "wcag2aa", "wcag143"]
  check p := .ofScan (contrastCandidates p) <|
    firstFindings .nth lowContrast p.limits.maxContrastFindings 0 (contrastCandidates p)

end Rule

end PageAudit
