import PageAudit.Document.Build
import PageAudit.Proofs.Rule.Coherence

/-!
# Fields and buttons

The rules on form fields and the rules on buttons divide the inputs of a page between them.

* `Catalogue.places_placeholderAsLabel`: a placeholder stands in for a label exactly where a label is
  missing, so one of the two rules on fields finds the other's findings on the fields with a
  placeholder. `Finding.element?` looks up which element a finding is about.
* `Catalogue.input_classes`: an input is a field, or a button, or hidden or an image.
* `Catalogue.fields_and_buttons`: both, for every page with a root.
-/

namespace PageAudit

/-! ## The element of a finding -/

namespace Finding

/-- What a finding points at and shows, without what is wrong with it. -/
def place (f : Finding) : List String × String :=
  (f.target, f.html)

/-- The element of the numbered list `xs` that a finding points at. -/
def element? (xs : List Element) (f : Finding) : Option Element :=
  (xs.zipIdx.find? fun (e, i) => f.target == [Locator.numbered e.tag i]).map (·.1)

section
variable {html : Element → String} {locate : Element → Nat → Locator}
  (hl : ∀ e i, locate e i = ⟨e, Locator.numbered e.tag i, html e⟩)
include hl

theorem element?_finding {xs : List Element} {e : Element} {i : Nat} (he : (e, i) ∈ xs.zipIdx)
    (summary : String) : ((locate e i).finding summary).element? xs = some e := by
  have target : ((locate e i).finding summary).target = [Locator.numbered e.tag i] := by
    rw [hl]
    rfl
  unfold element?
  rw [target]
  cases hf : xs.zipIdx.find? fun x => [Locator.numbered e.tag i] == [Locator.numbered x.1.tag x.2] with
  | none => exact absurd (beq_self_eq_true _) (List.find?_eq_none.1 hf (e, i) he)
  | some x =>
    obtain ⟨e', j⟩ := x
    have ht := List.find?_some hf
    obtain ⟨-, rfl⟩ := Locator.numbered_inj (List.cons.inj (beq_iff_eq.1 ht)).1
    have he' := List.mem_zipIdx_iff_getElem?.1 (List.mem_of_find?_eq_some hf)
    rw [List.mem_zipIdx_iff_getElem?.1 he] at he'
    exact he'.symm

/-- The findings about elements of one kind are those of a test that asks for the kind first. -/
theorem filter_findingsIn (q : Element → Bool) (test : Test) (xs : List Element) :
    ((findingsIn locate test xs).filter fun f => (f.element? xs).any q) =
      findingsIn locate (fun i e => if q e then test i e else none) xs := by
  unfold findingsIn
  rw [List.filter_filterMap]
  refine List.filterMap_congr fun ⟨e, i⟩ hm => ?_
  cases ht : test i e with
  | none => simp [ht]
  | some summary =>
    have element := element?_finding hl hm summary
    cases hq : q e <;> simp [ht, hq, element, Option.filter]

end

/-- Where findings stand depends on whether a test has something to say, and not on what. -/
theorem map_place_findingsIn {test test' : Test}
    (h : ∀ i e, (test i e).isSome = (test' i e).isSome) (xs : List Element) :
    (findingsIn .nth test xs).map (·.place) = (findingsIn .nth test' xs).map (·.place) := by
  unfold findingsIn
  rw [List.map_filterMap, List.map_filterMap]
  refine List.filterMap_congr fun ⟨e, i⟩ _ => ?_
  have he := h i e
  cases ht : test i e <;> cases ht' : test' i e <;> simp_all [place, Locator.finding]

end Finding

namespace Catalogue

open Rule

/-! ## Placeholders -/

theorem isSome_labeledByPlaceholder (targets : List String) (i : Nat) (e : Element) :
    (labeledByPlaceholder targets i e).isSome =
      (if e.hasAttr "placeholder" then unlabeled targets i e else none).isSome := by
  unfold labeledByPlaceholder unlabeled Element.hasAttr
  cases e.attr? "placeholder" <;> cases isLabeled targets e <;> rfl

/-- **Placeholders in place of labels**: the findings on missing labels, where the field has a
placeholder. -/
theorem places_placeholderAsLabel (p : Page) :
    (placeholderAsLabel.check p).findings.map (·.place) =
      ((label.check p).findings.filter fun f =>
        (f.element? (formFields p)).any (·.hasAttr "placeholder")).map (·.place) := by
  show (findingsIn .nth (labeledByPlaceholder (labelTargets p)) (formFields p)).map _ =
    ((findingsIn .nth (unlabeled (labelTargets p)) (formFields p)).filter _).map _
  rw [Finding.filter_findingsIn Locator.nth_eq]
  exact Finding.map_place_findingsIn (isSome_labeledByPlaceholder (labelTargets p)) (formFields p)

/-! ## Inputs -/

/-- An input that is neither filled in nor pressed by its name: its type is hidden or an image. -/
def IsHiddenOrImage (e : Element) : Prop :=
  ∃ t, e.attr? "type" = some t ∧
    (Text.lower (Text.trim t) = "hidden" ∨ Text.lower (Text.trim t) = "image")

/-- One of three holds, and only one. -/
def ExactlyOne (a b c : Prop) : Prop :=
  (a ∨ b ∨ c) ∧ ¬ (a ∧ b) ∧ ¬ (a ∧ c) ∧ ¬ (b ∧ c)

theorem isHiddenOrImage_iff {e : Element} :
    IsHiddenOrImage e ↔ e.inputType = "hidden" ∨ e.inputType = "image" := by
  unfold IsHiddenOrImage Element.inputType
  cases e.attr? "type" <;> simp

section
variable {d : Document} {limits : Limits} {p : Page} (hp : Page.ofDocument? d limits = some p)
include hp

theorem mem_elements_iff {tags : List String} {e : Element} :
    e ∈ p.elements tags ↔ e ∈ d.elements ∧ e.tag ∈ tags := by
  rw [elements_eq_of_page hp, Page.elements, Element.findAll, List.mem_filter,
    List.contains_iff_mem]

theorem mem_formFields_iff {e : Element} : e ∈ formFields p ↔ e ∈ d.elements ∧
    (e.tag = "textarea" ∨ e.tag = "select" ∨ e.tag = "input" ∧ e.inputType ∉ unlabeledTypes) := by
  rw [formFields, List.mem_filter, mem_elements_iff hp, and_assoc]
  refine and_congr_right fun _ => ?_
  by_cases hi : e.tag = "input"
  · simp [hi]
  · simp [hi]

theorem mem_buttons_iff {e : Element} : e ∈ buttons p ↔ e ∈ d.elements ∧
    (e.tag = "button" ∨ e.tag = "input" ∧ e.inputType ∈ buttonTypes) := by
  rw [buttons, List.mem_filter, mem_elements_iff hp, and_assoc]
  refine and_congr_right fun _ => ?_
  by_cases hb : e.tag = "button"
  · simp [hb]
  · simp [hb]

/-- **Every input**, whatever its type, is a field, or a button, or hidden or an image. -/
theorem input_classes {e : Element} (he : e ∈ d.elements) (hi : e.tag = "input") :
    ExactlyOne (e ∈ formFields p) (e ∈ buttons p) (IsHiddenOrImage e) := by
  -- the types without a label are those of buttons, and these two
  have types : e.inputType ∈ unlabeledTypes ↔
      e.inputType ∈ buttonTypes ∨ e.inputType = "hidden" ∨ e.inputType = "image" := by
    simp [unlabeledTypes, buttonTypes]
    tauto
  have apart : e.inputType ∈ buttonTypes → ¬ (e.inputType = "hidden" ∨ e.inputType = "image") := by
    rintro hb (ho | ho)
    · simp [ho, buttonTypes] at hb
    · simp [ho, buttonTypes] at hb
  have field : e ∈ formFields p ↔ e.inputType ∉ unlabeledTypes := by
    simp [mem_formFields_iff hp, he, hi]
  have button : e ∈ buttons p ↔ e.inputType ∈ buttonTypes := by
    simp [mem_buttons_iff hp, he, hi]
  rw [ExactlyOne, field, button, isHiddenOrImage_iff, types]
  tauto

end

/-- **Fields, buttons and the rest.** On every page with a root the findings on placeholders are those
on missing labels whose field has a placeholder, in the same order, with the same targets and markup.
The rules on labels number the fields and the rules on buttons the buttons. Every input is in one of
three classes and in no other: a field, a button, or hidden or an image; every text area and every
selection is a field, and every button is a button. -/
theorem fields_and_buttons {d : Document} {limits : Limits} {p : Page}
    (hp : Page.ofDocument? d limits = some p) :
    (placeholderAsLabel.check p).findings.map (·.place) =
      ((label.check p).findings.filter fun f =>
        (f.element? (formFields p)).any (·.hasAttr "placeholder")).map (·.place) ∧
    (∀ r ∈ [label, placeholderAsLabel],
      InOrder Element.outerHtml (formFields p) (r.check p).findings) ∧
    (∀ r ∈ [buttonName, buttonTextQuality],
      InOrder Element.outerHtml (buttons p) (r.check p).findings) ∧
    (∀ e ∈ d.elements, e.tag = "input" →
      ExactlyOne (e ∈ formFields p) (e ∈ buttons p) (IsHiddenOrImage e)) ∧
    (∀ e ∈ d.elements, e.tag = "textarea" ∨ e.tag = "select" → e ∈ formFields p) ∧
    ∀ e ∈ d.elements, e.tag = "button" → e ∈ buttons p := by
  refine ⟨places_placeholderAsLabel p, ?fields, ?buttons, fun e he hi => input_classes hp he hi,
    fun e he ht => (mem_formFields_iff hp).2 ⟨he, ht.imp_right .inl⟩,
    fun e he ht => (mem_buttons_iff hp).2 ⟨he, .inl ht⟩⟩
  all_goals
    simp only [List.forall_mem_cons]
    exact ⟨inOrder_findingsIn (fun _ _ => rfl) _ _, inOrder_findingsIn (fun _ _ => rfl) _ _,
      by simp⟩

/-- A page with an input of each class, their types spelled in three ways, and one of an unknown
type. -/
def fourInputs : Document :=
  .ofSteps [.root "html" [], .element 0 "input" [⟨"placeholder", "Name"⟩],
    .element 0 "input" [⟨"type", " Submit "⟩], .element 0 "input" [⟨"TYPE", "hidden"⟩],
    .element 0 "input" [⟨"type", "colour"⟩]]

def fourInputsPage : Page :=
  ⟨fourInputs, ⟨fourInputs, 0⟩, {}⟩

/-- Two of the four miss a label, and one of the two has a placeholder instead. -/
theorem fields_and_buttons_four : Page.ofDocument? fourInputs {} = some fourInputsPage ∧
    (∀ e ∈ fourInputs.elements, e.tag = "input" →
      ExactlyOne (e ∈ formFields fourInputsPage) (e ∈ buttons fourInputsPage) (IsHiddenOrImage e)) ∧
    (placeholderAsLabel.check fourInputsPage).findings.map (·.target) = [["input:nth-child(1)"]] ∧
    (label.check fourInputsPage).findings.map (·.target) =
      [["input:nth-child(1)"], ["input:nth-child(2)"]] := by
  have hp : Page.ofDocument? fourInputs {} = some fourInputsPage := rfl
  obtain ⟨-, -, -, classes, -⟩ := fields_and_buttons hp
  exact ⟨hp, classes, by decide, by decide⟩

end Catalogue

end PageAudit
