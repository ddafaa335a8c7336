import PageAudit.Document.Markup
import PageAudit.Report.Basic

/-!
# Locators

How a finding points at an element: a selector and an excerpt of the markup. The selector counts the
element in the list that the rule went through, from one, and not among its siblings.
-/

namespace PageAudit

structure Locator where
  element : Element
  selector : String
  html : String

namespace Locator

/-- The length of the excerpt of an element that may hold a large part of the page. -/
def largeExcerpt : Nat := 200

/-- The selector of the element at `index` of a list. -/
def numbered (tag : String) (index : Nat) : String :=
  tag ++ ":nth-child(" ++ toString (index + 1) ++ ")"

/-- Points at the element at `index` of a list, with all of its markup. -/
def nth (e : Element) (index : Nat) : Locator :=
  ⟨e, numbered e.tag index, e.outerHtml⟩

/-- Points at the element at `index` of a list, with its markup cut after `limit` characters. -/
def nthExcerpt (limit : Nat) (e : Element) (index : Nat) : Locator :=
  ⟨e, numbered e.tag index, e.excerpt limit⟩

/-- Points at an element that stands alone on its page, by its tag. It may wrap the whole page, so only
its opening tag is kept. -/
def singleton (e : Element) : Locator :=
  ⟨e, e.tag, e.openingTag⟩

def finding (l : Locator) (summary : String) : Finding :=
  ⟨l.html, [l.selector], summary⟩

end Locator

end PageAudit
