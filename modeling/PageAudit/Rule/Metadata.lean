import PageAudit.Rule.Basic
import PageAudit.Text.Blank

/-!
# Title, language and viewport

What a page says about itself. These rules apply to every page.
-/

namespace PageAudit.Rule

/-- Where a viewport is looked for: the first `head`, or the whole page if there is none. -/
def viewportScope (p : Page) : Element :=
  (p.document.firstByTag "head").getD p.root

/-- A `meta` element whose name is `viewport`, whatever its case and the blanks around it. -/
def isViewport (e : Element) : Bool :=
  (e.attr? "name").any fun name => Text.sameName (Text.trim name) "viewport"

def documentTitle : Rule where
  id := "document-title"
  impact := .serious
  description := "Ensures each HTML document contains a non-empty <title> element"
  help := "Documents must have <title> element to aid in navigation"
  tags := ["cat.text-alternatives", "wcag2a", "wcag242"]
  reportsPass := true
  check p := .ofPage <|
    match p.document.firstByTag "title" with
    | none =>
      some ((Locator.singleton p.root).finding "Document does not have a <title> element")
    | some title =>
      if Text.isBlankText title.textContent then
        some ((Locator.singleton title).finding "Document <title> element is empty")
      else none

def htmlHasLang : Rule where
  id := "html-has-lang"
  impact := .serious
  description := "Ensures every HTML document has a lang attribute"
  help := "<html> element must have a lang attribute"
  tags := ["cat.language", "wcag2a", "wcag311"]
  reportsPass := true
  check p := .ofPage <|
    if p.root.hasAttr "lang" then none
    else some ((Locator.singleton p.root).finding
      "The <html> element does not have a lang attribute")

def metaViewport : Rule where
  id := "meta-viewport"
  impact := .moderate
  description := "Ensures the document declares a <meta name=\"viewport\"> element"
  help := "Documents should declare a viewport so content reflows on small screens"
  tags := ["cat.sensory-and-visual-cues", "best-practice"]
  reportsPass := true
  check p := .ofPage <|
    if ((viewportScope p).findAll ["meta"]).any isViewport then none
    else some ((Locator.singleton (viewportScope p)).finding
      "Document does not have a <meta name=\"viewport\"> element")

end PageAudit.Rule
