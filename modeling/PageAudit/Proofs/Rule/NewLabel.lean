import PageAudit.Proofs.Document.Parsed
import PageAudit.Proofs.Rule.Fields
import PageAudit.Proofs.Rule.Naming
import PageAudit.Proofs.Rule.NewElement

/-!
# A new label

A label put anywhere on a page labels the fields with the id that it points at, and changes nothing for
any other field.

* `Rule.isLabeled_of_oneMore`: what one more id to point at does to the question whether a field is
  labeled.
* `Catalogue.flagged_labels_iff`: the two rules flag the fields that no label of the document points at.
* `Catalogue.formFields_sameEntry`, `Catalogue.oneMore_labelTargets`: the fields stay the same, and the
  ids are one more.
* `Catalogue.new_label`: so the fields that are flagged for a missing label, or for a placeholder in
  place of one, are those that were, without the fields that the label points at.
-/

namespace PageAudit

open Element (SameEntry)

namespace Rule

/-! ## Labels -/

/-- A label of the document points at the id of the field, which is not empty, or the field labels
itself. -/
def Labeled (d : Document) (e : Element) : Prop :=
  (∃ l ∈ d.elements, l.tag = "label" ∧ ∃ id, l.attr? "for" = some id ∧ id ≠ "" ∧
    e.attr? "id" = some id) ∨ e.hasAttr "aria-label" = true ∨ e.hasAttr "aria-labelledby" = true

/-- A field has a label if one points at its id, unless that is empty, or if it labels itself. -/
theorem isLabeled_iff {targets : List String} {e : Element} : isLabeled targets e = true ↔
    (∃ id ∈ targets, id ≠ "" ∧ e.attr? "id" = some id) ∨
      e.hasAttr "aria-label" = true ∨ e.hasAttr "aria-labelledby" = true := by
  rw [isLabeled, Bool.or_eq_true, Bool.or_eq_true, or_assoc, Option.any_eq_true]
  refine or_congr_left ?_
  constructor
  · rintro ⟨id, hid, h⟩
    obtain ⟨hne, hm⟩ := Bool.and_eq_true_iff.1 h
    exact ⟨id, List.contains_iff_mem.1 hm, bne_iff_ne.1 hne, hid⟩
  · rintro ⟨id, hm, hne, hid⟩
    exact ⟨id, hid, Bool.and_eq_true_iff.2 ⟨bne_iff_ne.2 hne, List.contains_iff_mem.2 hm⟩⟩

theorem isSome_unlabeled_iff {targets : List String} {i : Nat} {e : Element} :
    (unlabeled targets i e).isSome = true ↔ ¬ isLabeled targets e = true := by
  unfold unlabeled
  cases isLabeled targets e <;> simp

theorem isSome_labeledByPlaceholder_iff {targets : List String} {i : Nat} {e : Element} :
    (labeledByPlaceholder targets i e).isSome = true ↔
      e.hasAttr "placeholder" = true ∧ ¬ isLabeled targets e = true := by
  rw [Catalogue.isSome_labeledByPlaceholder, ← isSome_unlabeled_iff (i := i)]
  cases e.hasAttr "placeholder" <;> simp

/-! ## One more id to point at -/

/-- `targets'` are the ids `targets` and `v`. -/
def OneMore (v : String) (targets targets' : List String) : Prop :=
  ∀ id, id ∈ targets' ↔ id ∈ targets ∨ v = id

section
variable {v : String} {targets targets' : List String} (more : OneMore v targets targets')
  {e e' : Element} (he : SameEntry e e')
include more he

/-- With one more id to point at, the fields with that id are labeled too. -/
theorem isLabeled_of_oneMore : isLabeled targets' e' = true ↔
    isLabeled targets e = true ∨ v ≠ "" ∧ e.attr? "id" = some v := by
  have pointed : (∃ id ∈ targets', id ≠ "" ∧ e.attr? "id" = some id) ↔
      (∃ id ∈ targets, id ≠ "" ∧ e.attr? "id" = some id) ∨ v ≠ "" ∧ e.attr? "id" = some v := by
    constructor
    · rintro ⟨id, hm, hne, hid⟩
      rcases (more id).1 hm with hm | rfl
      · exact .inl ⟨id, hm, hne, hid⟩
      · exact .inr ⟨hne, hid⟩
    · rintro (⟨id, hm, hne, hid⟩ | ⟨hne, hid⟩)
      · exact ⟨id, (more id).2 (.inl hm), hne, hid⟩
      · exact ⟨v, (more v).2 (.inr rfl), hne, hid⟩
  rw [isLabeled_iff, isLabeled_iff, ← he.attr?, ← he.hasAttr, ← he.hasAttr, pointed, or_right_comm]

theorem unlabeled_of_oneMore (i : Nat) : (unlabeled targets' i e').isSome = true ↔
    (unlabeled targets i e).isSome = true ∧ ¬ (v ≠ "" ∧ e.attr? "id" = some v) := by
  rw [isSome_unlabeled_iff, isSome_unlabeled_iff, isLabeled_of_oneMore more he, not_or]

theorem labeledByPlaceholder_of_oneMore (i : Nat) :
    (labeledByPlaceholder targets' i e').isSome = true ↔
      (labeledByPlaceholder targets i e).isSome = true ∧ ¬ (v ≠ "" ∧ e.attr? "id" = some v) := by
  rw [isSome_labeledByPlaceholder_iff, isSome_labeledByPlaceholder_iff, isLabeled_of_oneMore more he,
    not_or, he.hasAttr, and_assoc]

end

/-- Of elements that stay the same, a test that passes over those with the id `v` flags what it flagged
before, without these. If `v` is empty there are none. -/
theorem map_target_of_oneMore {v : String} {test test' : Test}
    (ht : ∀ i e e', SameEntry e e' → ((test' i e').isSome = true ↔
      (test i e).isSome = true ∧ ¬ (v ≠ "" ∧ e.attr? "id" = some v)))
    {xs ys : List Element} (h : List.Forall₂ SameEntry xs ys) :
    (v ≠ "" → (findingsIn .nth test' ys).map (·.target) =
      ((findingsIn .nth test xs).filter fun f =>
        (f.element? xs).any fun e => e.attr? "id" ≠ some v).map (·.target)) ∧
    (v = "" → (findingsIn .nth test' ys).map (·.target) =
      (findingsIn .nth test xs).map (·.target)) := by
  constructor
  · intro hv
    rw [Finding.filter_findingsIn Locator.nth_eq]
    refine (map_target_findingsIn Locator.nth_eq (fun _ _ he => he.tag) (fun i e e' he => ?_) h).symm
    rw [Bool.eq_iff_iff, ht i e e' he]
    by_cases hid : e.attr? "id" = some v <;> simp [hid, hv]
  · intro hv
    refine (map_target_findingsIn Locator.nth_eq (fun _ _ he => he.tag) (fun i e e' he => ?_) h).symm
    rw [Bool.eq_iff_iff, ht i e e' he, and_iff_left fun hid => hid.1 hv]

end Rule

namespace Catalogue

open Rule

/-! ## Fields and ids of a page -/

section
variable {d : Document} {limits : Limits} {p : Page} (hp : Page.ofDocument? d limits = some p)
include hp

theorem mem_labelTargets_iff {id : String} : id ∈ labelTargets p ↔
    ∃ l ∈ d.elements, l.tag = "label" ∧ l.attr? "for" = some id := by
  rw [labelTargets, List.mem_filterMap]
  simp only [mem_elements_iff hp, List.mem_singleton, and_assoc]

theorem isLabeled_labelTargets_iff {e : Element} :
    isLabeled (labelTargets p) e = true ↔ Labeled d e := by
  rw [isLabeled_iff, Labeled]
  refine or_congr_left ?_
  constructor
  · rintro ⟨id, hm, hne, hid⟩
    obtain ⟨l, hl, tag, target⟩ := (mem_labelTargets_iff hp).1 hm
    exact ⟨l, hl, tag, id, target, hne, hid⟩
  · rintro ⟨l, hl, tag, id, target, hne, hid⟩
    exact ⟨id, (mem_labelTargets_iff hp).2 ⟨l, hl, tag, target⟩, hne, hid⟩

/-- **The two rules on labels** flag the fields without one, the second if they have a placeholder. -/
theorem flagged_labels_iff {i : Nat} {e : Element} (he : (formFields p)[i]? = some e) :
    (Flagged (formFields p) (label.check p) i ↔ ¬ Labeled d e) ∧
    (Flagged (formFields p) (placeholderAsLabel.check p) i ↔
      e.hasAttr "placeholder" = true ∧ ¬ Labeled d e) := by
  have flagged : ∀ (scanned : List Element) (test : Test), Flagged (formFields p)
      (.ofScan scanned (findingsIn .nth test (formFields p))) i ↔ (test i e).isSome = true := by
    intro scanned test
    rw [flagged_ofScan_iff, Option.isSome_iff_exists, he]
    simp
  rw [← isLabeled_labelTargets_iff hp]
  exact ⟨(flagged _ _).trans isSome_unlabeled_iff,
    (flagged _ _).trans isSome_labeledByPlaceholder_iff⟩

end

section
variable {d d' : Document} {limits : Limits} {p p' : Page}
  (hp : Page.ofDocument? d limits = some p) (hp' : Page.ofDocument? d' limits = some p')
  {new : Element} (inserted : Inserted new d.elements d'.elements) (tag : new.tag = "label")
include hp hp' inserted tag

/-- A label is no field. -/
theorem formFields_sameEntry : List.Forall₂ SameEntry (formFields p) (formFields p') := by
  unfold formFields Page.elements Element.findAll
  rw [← elements_eq_of_page hp, ← elements_eq_of_page hp']
  refine forall₂_sameEntry_filter (fun e e' he => ?_) (inserted.filter_of_neg (fun e e' he => ?_) ?_)
  · rw [he.tag, he.inputType]
  · rw [he.tag]
  · rw [tag]
    rfl

theorem oneMore_labelTargets {v : String} (target : new.attr? "for" = some v) :
    OneMore v (labelTargets p) (labelTargets p') := by
  unfold labelTargets Page.elements Element.findAll
  rw [← elements_eq_of_page hp, ← elements_eq_of_page hp']
  intro id
  have labels := inserted.filter_of_pos (q := fun e => ["label"].contains e.tag)
    (fun e e' he => by rw [he.tag]) (by rw [tag]; rfl)
  rw [labels.mem_filterMap_iff fun e e' he => he.attr? "for", target, Option.some.injEq]

end

/-- **A new label** somewhere on a page, pointing at the id `v`. The two rules on labels flag the fields
without a label. The fields and their numbers stay as they are, and those that the two rules flag are
those that they flagged before, without the fields with that id; if the id is empty they are the same.
The two rules apply as they did. -/
theorem new_label :
    (∀ steps, (Document.ofSteps steps).Sound) ∧ (∀ n, (Document.ofParsed n).Sound) ∧
    (∀ d limits p, Page.ofDocument? d limits = some p → ∀ i e, (formFields p)[i]? = some e →
      (Flagged (formFields p) (label.check p) i ↔ ¬ Labeled d e) ∧
      (Flagged (formFields p) (placeholderAsLabel.check p) i ↔
        e.hasAttr "placeholder" = true ∧ ¬ Labeled d e)) ∧
    ∀ d : Document, d.Sound → ∀ id ∈ d.elements.map (·.id), ∀ (v : String) (limits : Limits),
      ∃ p p', Page.ofDocument? d limits = some p ∧
        Page.ofDocument? (d.appendElement id "label" [⟨"for", v⟩]) limits = some p' ∧
        (formFields p').map Element.entry = (formFields p).map Element.entry ∧
        ∀ r ∈ [label, placeholderAsLabel],
          (r.check p').applicable = (r.check p).applicable ∧
          (v ≠ "" → (r.check p').findings.map (·.target) = ((r.check p).findings.filter fun f =>
            (f.element? (formFields p)).any fun e => e.attr? "id" ≠ some v).map (·.target)) ∧
          (v = "" → (r.check p').findings.map (·.target) =
            (r.check p).findings.map (·.target)) := by
  refine ⟨fun steps => (Build.ok_run steps).sound, Document.sound_ofParsed,
    fun d limits p hp i e he => flagged_labels_iff hp he, ?_⟩
  intro d h id hid v limits
  obtain ⟨new, entry, inserted⟩ := h.inserted_appendElement hid "label" [⟨"for", v⟩]
  obtain ⟨p, p', hp, hp'⟩ :=
    Document.exists_page_appendElement hid "label" [⟨"for", v⟩] limits
  have tag : new.tag = "label" := congrArg (·.2.1) entry
  have target : new.attr? "for" = some v := by
    have attributes : new.attributes = [⟨Text.lower "for", v⟩] := congrArg (·.2.2) entry
    have named : Text.sameName (Text.lower "for") "for" = true := by decide
    rw [Element.attr?, attributes, List.find?_singleton, if_pos named]
    rfl
  have fields := formFields_sameEntry hp hp' inserted tag
  have more := oneMore_labelTargets hp hp' inserted tag target
  refine ⟨p, p', hp, hp', (forall₂_sameEntry_iff.1 fields).symm, ?_⟩
  have scanned : ((formFields p').filter (·.hasAttr "placeholder")).isEmpty =
      ((formFields p).filter (·.hasAttr "placeholder")).isEmpty :=
    (isEmpty_of_forall₂
      (forall₂_sameEntry_filter (fun _ _ he => he.hasAttr "placeholder") fields)).symm
  simp only [List.forall_mem_cons]
  refine ⟨⟨?_, ?_⟩, ⟨?_, ?_⟩, by simp⟩
  · exact congrArg not (isEmpty_of_forall₂ fields).symm
  · exact map_target_of_oneMore (fun i e e' he => unlabeled_of_oneMore more he i) fields
  · exact congrArg not scanned
  · exact map_target_of_oneMore (fun i e e' he => labeledByPlaceholder_of_oneMore more he i) fields

/-- A page with a selection and an input, both with an id and the input with a placeholder. -/
def twoFields : Document :=
  .ofSteps [.root "form" [], .element 0 "select" [⟨"id", "size"⟩],
    .element 0 "input" [⟨"id", "name"⟩, ⟨"placeholder", "Name"⟩]]

/-- A label for the input, put in the selection before it, takes the input off both lists. -/
theorem new_label_twoFields : ∃ p p', Page.ofDocument? twoFields {} = some p ∧
    Page.ofDocument? (twoFields.appendElement 1 "label" [⟨"for", "name"⟩]) {} = some p' ∧
    Flagged (formFields p) (label.check p) 1 ∧
    (label.check p).findings.map (·.target) = [["select:nth-child(1)"], ["input:nth-child(2)"]] ∧
    (label.check p').findings.map (·.target) = [["select:nth-child(1)"]] ∧
    (placeholderAsLabel.check p).findings.map (·.target) = [["input:nth-child(2)"]] ∧
    (placeholderAsLabel.check p').findings.map (·.target) = [] := by
  obtain ⟨sound, -, flagged, added⟩ := new_label
  obtain ⟨p, p', hp, hp', -, rules⟩ := added twoFields (sound _) 1 (by decide) "name" {}
  obtain rfl : ⟨twoFields, ⟨twoFields, 0⟩, {}⟩ = p := Option.some.inj hp
  obtain ⟨-, labels, -⟩ := rules label (by simp)
  obtain ⟨-, placeholders, -⟩ := rules placeholderAsLabel (by simp)
  have missing : ¬ Labeled twoFields ⟨twoFields, 2⟩ := by
    rw [← isLabeled_labelTargets_iff hp]
    decide
  have second := (flagged twoFields {} _ hp 1 ⟨twoFields, 2⟩ rfl).1.2 missing
  refine ⟨_, p', hp, hp', second, by decide, ?_, by decide, ?_⟩
  · rw [labels (by decide)]
    decide
  · rw [placeholders (by decide)]
    decide

end Catalogue

end PageAudit
