import PageAudit.Rule.Basic

/-!
# Tables

Header cells anywhere in the table, and a caption among its children. A table may be large, so its
markup is cut.
-/

namespace PageAudit.Rule

def tables (p : Page) : List Element :=
  p.elements ["table"]

def locateTable : Element → Nat → Locator :=
  Locator.nthExcerpt Locator.largeExcerpt

def tableHeaders : Rule where
  id := "table-headers"
  impact := .serious
  description := "Ensures each data table has header cells"
  help := "Tables must use <th> elements for headers"
  tags := ["cat.tables", "wcag2a", "wcag131"]
  check p := .ofScan (tables p) <| findingsIn locateTable (fun _ e =>
      if (e.findAll ["th"]).isEmpty then some "Table has no <th> header cells" else none)
    (tables p)

def tableCaption : Rule where
  id := "table-caption"
  impact := .minor
  description := "Ensures each data table has a <caption>"
  help := "Tables should have a caption describing their content"
  tags := ["cat.tables", "best-practice"]
  surfaces := false
  check p := .ofScan (tables p) <| findingsIn locateTable (fun _ e =>
      if e.hasChild "caption" then none else some "Table has no <caption> element")
    (tables p)

end PageAudit.Rule
