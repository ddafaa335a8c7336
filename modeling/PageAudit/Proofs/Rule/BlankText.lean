import PageAudit.Proofs.Rule.Naming
import PageAudit.Proofs.Text.Words
import PageAudit.Rule.Contrast
import PageAudit.Rule.Metadata

/-!
# One notion of a blank text

The rules on names single-space a text and see whether anything is left. The rules on headings, titles
and contrast trim it. Nothing is left by the one exactly if nothing is left by the other, so a text
that is blank to one rule is blank to all of them.

* `Element.accessibleName?_eq_none_iff_trim`: when an element has no name, in terms of trimming.
* `Rule.BlankAlike`: where each of the rules could as well go by the other's notion.
* `Catalogue.normal_texts`: **normal texts**, and that every page is one on which the rules agree.
-/

namespace PageAudit

theorem Text.normalize_eq_empty_iff_trim {s : String} : normalize s = "" ↔ trim s = "" :=
  normalize_eq_empty_iff.trans isBlankText_iff_trim

/-- An element has no name if trimming leaves nothing of its content, and nothing of any attribute that
could stand in for it. -/
theorem Element.accessibleName?_eq_none_iff_trim {attributes : List String} {e : Element} :
    e.accessibleName? attributes = none ↔ Text.trim e.textContent = "" ∧
      ∀ a ∈ attributes, ∀ v, e.attr? a = some v → Text.trim v = "" := by
  unfold accessibleName?
  rw [find?_normalize_cons, find?_attributes]
  by_cases hblank : Text.isBlankText e.textContent = true
  · rw [if_pos hblank, List.findSome?_eq_none_iff, and_iff_right (Text.isBlankText_iff_trim.1 hblank)]
    simp only [worded?_eq_none_iff, Text.isBlankText_iff_trim]
  · rw [if_neg hblank, ← Text.isBlankText_iff_trim]
    simp [hblank]

namespace Rule

/-- A numbered list in which the rule on names flags what trimming leaves nothing of. -/
def NamelessByTrimming (attributes : List String) (xs : List Element) (naming : Evaluation) : Prop :=
  ∀ i e, xs[i]? = some e → (Flagged xs naming i ↔ Text.trim e.textContent = "" ∧
    ∀ a ∈ attributes, ∀ v, e.attr? a = some v → Text.trim v = "")

/-- On this page the rules on names could as well trim, and the others could as well single-space. -/
structure BlankAlike (p : Page) : Prop where
  links : NamelessByTrimming Catalogue.linkNaming (links p) (linkName.check p)
  buttons : NamelessByTrimming Catalogue.buttonNaming (buttons p) (buttonName.check p)
  headings : ∀ i e, (headings p)[i]? = some e →
    (Flagged (headings p) (emptyHeading.check p) i ↔ Text.normalize e.textContent = "")
  title : ∀ title, p.document.firstByTag "title" = some title →
    ((documentTitle.check p).findings ≠ [] ↔ Text.normalize title.textContent = "")
  texts : ∀ e, e ∈ contrastCandidates p ↔ e ∈ p.elements textTags ∧
    Text.normalize e.textContent ≠ "" ∧ declaresColors e.style = true

section
variable {attributes : List String} {xs : List Element} {p : Page}

theorem namelessByTrimming (summary : String) : NamelessByTrimming attributes xs
    (.ofScan xs (findingsIn .nth (nameless (·.accessibleName? attributes) summary) xs)) := by
  intro i e he
  rw [flagged_nameless_iff summary he, ← Element.accessibleName?_eq_none_iff,
    Element.accessibleName?_eq_none_iff_trim]

theorem flagged_emptyHeading_iff {i : Nat} {e : Element} (he : (headings p)[i]? = some e) :
    Flagged (headings p) (emptyHeading.check p) i ↔ Text.normalize e.textContent = "" := by
  rw [Text.normalize_eq_empty_iff]
  refine flagged_ofScan_iff.trans ⟨?_, fun hblank => ⟨e, _, he, if_pos hblank⟩⟩
  rintro ⟨e', summary, he', hs⟩
  obtain rfl : e = e' := Option.some.inj (he.symm.trans he')
  by_contra hn
  rw [if_neg hn] at hs
  cases hs

/-- A title is reported if nothing is left of its text. -/
theorem findings_documentTitle_iff {title : Element}
    (ht : p.document.firstByTag "title" = some title) :
    (documentTitle.check p).findings ≠ [] ↔ Text.normalize title.textContent = "" := by
  rw [Text.normalize_eq_empty_iff]
  simp only [documentTitle, ht, Evaluation.ofPage]
  split
  case isTrue h => simp [h]
  case isFalse h => simp [h]

theorem mem_contrastCandidates_iff {e : Element} : e ∈ contrastCandidates p ↔
    e ∈ p.elements textTags ∧ Text.normalize e.textContent ≠ "" ∧ declaresColors e.style = true := by
  rw [contrastCandidates, List.mem_filter, Bool.and_eq_true, Bool.not_eq_true', ← Bool.not_eq_true,
    ← Text.normalize_eq_empty_iff]

theorem blankAlike (p : Page) : BlankAlike p where
  links := namelessByTrimming _
  buttons := namelessByTrimming _
  headings _ _ := flagged_emptyHeading_iff
  title _ := findings_documentTitle_iff
  texts _ := mem_contrastCandidates_iff

end

end Rule

namespace Catalogue

open Rule Text

/-- **Normal texts.** The words of a text are what stands between its blanks. Normalizing a text yields
one without a blank at either end, with no blank but single spaces between its words, and with the same
words. It leaves a normal text as it is, brings two texts to the same exactly if they have the same
words, and leaves nothing exactly where trimming leaves nothing. So on every page the rules that
normalize and those that trim agree on which texts are blank. -/
theorem normal_texts :
    (∀ s ws, words s = ws ↔ Worded s.toList (ws.map String.toList)) ∧
    (∀ s, SingleSpaced (normalize s).toList ∧ words (normalize s) = words s) ∧
    (∀ s, normalize (normalize s) = normalize s) ∧
    (∀ s t, normalize s = normalize t ↔ words s = words t) ∧
    (∀ s, normalize s = "" ↔ trim s = "") ∧
    ∀ p : Page, BlankAlike p :=
  ⟨fun _ _ => words_eq_iff, fun s => ⟨singleSpaced_normalize s, words_normalize s⟩,
    normalize_normalize, fun _ _ => normalize_eq_iff, fun _ => normalize_eq_empty_iff_trim, blankAlike⟩

end Catalogue

end PageAudit
