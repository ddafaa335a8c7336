import PageAudit.Proofs.Document.Recursion
import PageAudit.Proofs.Rule.Fields

/-!
# Where a viewport is looked for

The rule on viewports looks below the first `head` of a page, and only on a page without one does it look
everywhere.

* `viewportScope_eq`, `viewportScope_subset`: what is below that place is in the document.
* `metaViewport_check_cases`: the rule reports a page exactly if nothing below it declares a viewport.
* `viewport_of_page`: so a page that declares none is always reported, and **a page that declares one is
  passed if that is below the first `head`**, or there is no `head`. A viewport that is declared outside
  of the first `head` is not seen (`viewport_outside_head`).
-/

namespace PageAudit

/-- A `meta` element with a name that is `viewport`, but for blanks around it and the case of A to Z. -/
def Element.DeclaresViewport (e : Element) : Prop :=
  e.tag = "meta" ∧ ∃ name, e.attr? "name" = some name ∧ Text.lower (Text.trim name) = "viewport"

namespace Catalogue

open Rule

theorem isViewport_iff {e : Element} : isViewport e = true ↔
    ∃ name, e.attr? "name" = some name ∧ Text.lower (Text.trim name) = "viewport" := by
  have lower : Text.lower "viewport" = "viewport" := by decide
  simp [isViewport, Option.any_eq_true, Text.sameName, lower]

/-- A search of an element finds a viewport that is declared there. -/
theorem any_isViewport_iff {e : Element} : (e.findAll ["meta"]).any isViewport = true ↔
    ∃ x ∈ e.descendants, x.DeclaresViewport := by
  rw [List.any_eq_true]
  simp only [Element.mem_findAll_iff, List.mem_singleton, isViewport_iff, and_assoc,
    Element.DeclaresViewport]

/-- What is said of a page that declares no viewport, or does so out of the rule's sight. -/
def viewportFinding (p : Page) : Finding :=
  (Locator.singleton (viewportScope p)).finding
    "Document does not have a <meta name=\"viewport\"> element"

/-- A page is passed if the rule finds a viewport in its scope, and reported otherwise. -/
theorem metaViewport_check_cases (p : Page) :
    (metaViewport.check p = ⟨true, []⟩ ∧ ∃ x ∈ (viewportScope p).descendants, x.DeclaresViewport) ∨
      (metaViewport.check p = ⟨true, [viewportFinding p]⟩ ∧
        ¬ ∃ x ∈ (viewportScope p).descendants, x.DeclaresViewport) := by
  have check : metaViewport.check p = .ofPage
      (if ((viewportScope p).findAll ["meta"]).any isViewport then none
        else some (viewportFinding p)) := rfl
  rw [check, ← any_isViewport_iff]
  by_cases found : ((viewportScope p).findAll ["meta"]).any isViewport = true
  · rw [if_pos found]
    exact .inl ⟨rfl, found⟩
  · rw [if_neg found]
    exact .inr ⟨rfl, found⟩

theorem metaViewport_reports_iff {p : Page} : metaViewport.check p = ⟨true, [viewportFinding p]⟩ ↔
    ¬ ∃ x ∈ (viewportScope p).descendants, x.DeclaresViewport := by
  rcases metaViewport_check_cases p with ⟨check, found⟩ | ⟨check, found⟩ <;> simp [check, found]

theorem metaViewport_passes_iff {p : Page} : metaViewport.check p = ⟨true, []⟩ ↔
    ∃ x ∈ (viewportScope p).descendants, x.DeclaresViewport := by
  rcases metaViewport_check_cases p with ⟨check, found⟩ | ⟨check, found⟩ <;> simp [check, found]

section
variable {d : Document} {limits : Limits} {p : Page} (hp : Page.ofDocument? d limits = some p)
include hp

/-- The scope is the first `head` of the document, or its root. -/
theorem viewportScope_eq :
    viewportScope p = (d.elements.find? (·.tag = "head")).getD p.root := by
  obtain ⟨root, hr, rfl⟩ := Option.map_eq_some_iff.1 hp
  have first : d.firstByTag "head" = d.elements.find? (·.tag = "head") := by
    simp [Document.firstByTag, Document.elementsByTag, Document.elements, hr, Element.findAll,
      List.head?_filter]
  rw [viewportScope, first]

/-- What is in the scope is in the document. -/
theorem viewportScope_subset (h : d.Sound) : (viewportScope p).descendants ⊆ d.elements := by
  rw [viewportScope_eq hp]
  cases hf : d.elements.find? (·.tag = "head") with
  | some head => exact h.descendants_subset_elements (List.mem_of_find?_eq_some hf)
  | none => exact fun x hx => elements_eq_of_page hp ▸ hx

/-- On a page without a `head` everything is in the scope. -/
theorem viewportScope_of_headless (headless : ∀ x ∈ d.elements, x.tag ≠ "head") :
    (viewportScope p).descendants = d.elements := by
  have unfound : d.elements.find? (·.tag = "head") = none :=
    List.find?_eq_none.2 fun x hx => by simpa using headless x hx
  rw [viewportScope_eq hp, unfound]
  exact (elements_eq_of_page hp).symm

end

/-- The page is reported exactly if it declares no viewport, and passed if it declares one. -/
def ViewportAsDeclared (d : Document) (p : Page) : Prop :=
  (metaViewport.check p = ⟨true, [viewportFinding p]⟩ ↔ ∀ x ∈ d.elements, ¬ x.DeclaresViewport) ∧
    ((∃ x ∈ d.elements, x.DeclaresViewport) → metaViewport.check p = ⟨true, []⟩)

theorem viewportAsDeclared_iff {d : Document} {p : Page}
    (inside : (viewportScope p).descendants ⊆ d.elements) :
    ViewportAsDeclared d p ↔ ((∃ x ∈ d.elements, x.DeclaresViewport) →
      ∃ x ∈ (viewportScope p).descendants, x.DeclaresViewport) := by
  rw [ViewportAsDeclared, metaViewport_reports_iff, metaViewport_passes_iff]
  refine ⟨And.right, fun seen => ⟨⟨fun hn x hx declared => ?_, ?_⟩, seen⟩⟩
  · exact hn (seen ⟨x, hx, declared⟩)
  · rintro hn ⟨x, hx, declared⟩
    exact hn x (inside hx) declared

/-- **The rule on viewports** reports every page that declares none. It goes by what a page declares
exactly if there is a viewport in the scope where there is one on the page. The scope is the first
`head`, or the whole page if there is none, and then the rule always does so. Every document that is read
or that steps have built is sound (`Document.sound_ofParsed`, `Build.ok_run`). -/
theorem viewport_of_page (d : Document) (h : d.Sound) (limits : Limits) (p : Page)
    (hp : Page.ofDocument? d limits = some p) :
    viewportScope p = (d.elements.find? (·.tag = "head")).getD p.root ∧
    (metaViewport.check p = ⟨true, []⟩ ∨ metaViewport.check p = ⟨true, [viewportFinding p]⟩) ∧
    ((∀ x ∈ d.elements, ¬ x.DeclaresViewport) →
      metaViewport.check p = ⟨true, [viewportFinding p]⟩) ∧
    (ViewportAsDeclared d p ↔ ((∃ x ∈ d.elements, x.DeclaresViewport) →
      ∃ x ∈ (viewportScope p).descendants, x.DeclaresViewport)) ∧
    ((∀ x ∈ d.elements, x.tag ≠ "head") → ViewportAsDeclared d p) := by
  have inside := viewportScope_subset hp h
  refine ⟨viewportScope_eq hp, ?_, fun missing => ?_, viewportAsDeclared_iff inside,
    fun headless => ?_⟩
  · exact (metaViewport_check_cases p).imp And.left And.left
  · rw [metaViewport_reports_iff]
    rintro ⟨x, hx, declared⟩
    exact missing x (inside hx) declared
  · rw [viewportAsDeclared_iff inside, viewportScope_of_headless hp headless]
    exact id

/-- A page with a viewport at `place`, which is its `head` or its `body`. -/
def viewportAt (place : Nat) : Document :=
  .ofSteps [.root "html" [], .element 0 "head" [], .element 0 "body" [],
    .element place "meta" [⟨"name", " ViewPort"⟩]]

/-- A viewport in the `head` is seen. -/
theorem viewport_of_page_head : ∃ p, Page.ofDocument? (viewportAt 1) {} = some p ∧
    ViewportAsDeclared (viewportAt 1) p ∧ metaViewport.check p = ⟨true, []⟩ := by
  have sound : (viewportAt 1).Sound := (Build.ok_run _).sound
  have seen : ∃ x ∈ (⟨viewportAt 1, 1⟩ : Element).descendants, x.DeclaresViewport :=
    ⟨⟨viewportAt 1, 3⟩, .tail _ (.head _), rfl, " ViewPort", rfl, by decide⟩
  obtain ⟨-, -, -, declared, -⟩ := viewport_of_page (viewportAt 1) sound {} ⟨_, ⟨_, 0⟩, {}⟩ rfl
  exact ⟨_, rfl, declared.2 fun _ => seen, metaViewport_passes_iff.2 seen⟩

/-- A viewport in the `body` is not: the page has one, and is reported for having none. -/
theorem viewport_outside_head : ∃ p, Page.ofDocument? (viewportAt 2) {} = some p ∧
    (∃ x ∈ (viewportAt 2).elements, x.DeclaresViewport) ∧
    metaViewport.check p =
      ⟨true, [⟨"<head>", ["head"], "Document does not have a <meta name=\"viewport\"> element"⟩]⟩ ∧
    ¬ ViewportAsDeclared (viewportAt 2) p := by
  have declared : ∃ x ∈ (viewportAt 2).elements, x.DeclaresViewport :=
    ⟨⟨viewportAt 2, 3⟩, .tail _ (.tail _ (.tail _ (.head _))), rfl, " ViewPort", rfl, by decide⟩
  refine ⟨⟨_, ⟨_, 0⟩, {}⟩, rfl, declared, by decide, fun claimed => ?_⟩
  exact absurd (claimed.2 declared) (by decide)

end Catalogue

end PageAudit
