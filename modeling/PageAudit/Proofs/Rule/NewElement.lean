import PageAudit.Rule.Name
import PageAudit.Proofs.Document.Growth
import PageAudit.Proofs.Rule.Findings
import Mathlib.Data.List.Forall2

/-!
# What rules see of a new element

When an element is appended to a document, all others keep their number in it, their tag and their
attributes (`Element.SameEntry`), but not what is below them.

* `Inserted`: a list of elements and the same list with one more element somewhere.
* `Document.Sound.inserted_appendElement`: so are the elements of a document before and after, wherever
  the new element is put.
* `Inserted.filter_of_neg`, `Inserted.filter_of_pos`: a list that a rule picks by tags and attributes
  stays the same, or has the new element in it.
* `map_target_findingsIn`: if the elements of a list keep their tags, and what a test says of them, then
  the targets stay the same.
-/

namespace PageAudit

/-! ## The same element before and after -/

/-- Elements of two documents with the same number, tag and attributes. -/
def Element.SameEntry (e e' : Element) : Prop := e.entry = e'.entry

namespace Element.SameEntry

variable {e e' : Element} (h : e.SameEntry e')
include h

theorem head : e.head = e'.head := congrArg Prod.snd h

theorem tag : e.tag = e'.tag := congrArg Prod.fst h.head

theorem attr? (name : String) : e.attr? name = e'.attr? name := by
  unfold Element.attr? Element.attributes
  rw [h.head]

theorem hasAttr (name : String) : e.hasAttr name = e'.hasAttr name :=
  congrArg Option.isSome (h.attr? name)

theorem inputType : e.inputType = e'.inputType := by
  unfold Element.inputType
  rw [h.attr?]

end Element.SameEntry

open Element (SameEntry)

theorem forall₂_sameEntry_iff {xs ys : List Element} :
    List.Forall₂ SameEntry xs ys ↔ xs.map Element.entry = ys.map Element.entry := by
  rw [← List.forall₂_eq_eq_eq, List.forall₂_map_left_iff, List.forall₂_map_right_iff]
  rfl

theorem forall₂_sameEntry_filter {q : Element → Bool} (hq : ∀ e e', SameEntry e e' → q e = q e')
    {xs ys : List Element} (h : List.Forall₂ SameEntry xs ys) :
    List.Forall₂ SameEntry (xs.filter q) (ys.filter q) :=
  List.rel_filter (fun e e' he => iff_of_eq (congrArg (· = true) (hq e e' he))) h

theorem filterMap_eq_of_sameEntry {f : Element → Option String}
    (hf : ∀ e e', SameEntry e e' → f e = f e') {xs ys : List Element}
    (h : List.Forall₂ SameEntry xs ys) : xs.filterMap f = ys.filterMap f := by
  induction h with
  | nil => rfl
  | cons he _ ih => rw [List.filterMap_cons, List.filterMap_cons, hf _ _ he, ih]

/-! ## One more element -/

/-- `ys` are the elements `xs`, and among them `new`. -/
inductive Inserted (new : Element) : List Element → List Element → Prop
  | here {xs ys : List Element} : List.Forall₂ SameEntry xs ys → Inserted new xs (new :: ys)
  | next {e e' : Element} {xs ys : List Element} : SameEntry e e' → Inserted new xs ys →
      Inserted new (e :: xs) (e' :: ys)

namespace Inserted

variable {new : Element} {xs ys : List Element} (h : Inserted new xs ys)
include h

theorem filter_of_neg {q : Element → Bool} (hq : ∀ e e', SameEntry e e' → q e = q e')
    (hn : q new = false) : List.Forall₂ SameEntry (xs.filter q) (ys.filter q) := by
  induction h with
  | here hs =>
    rw [List.filter_cons_of_neg (by simp [hn])]
    exact forall₂_sameEntry_filter hq hs
  | @next e e' xs ys he _ ih =>
    have hqe := hq e e' he
    cases hqe' : q e' with
    | false =>
      rw [List.filter_cons_of_neg (by simp [hqe, hqe']), List.filter_cons_of_neg (by simp [hqe'])]
      exact ih
    | true =>
      rw [List.filter_cons_of_pos (by rw [hqe, hqe']), List.filter_cons_of_pos hqe']
      exact .cons he ih

theorem filter_of_pos {q : Element → Bool} (hq : ∀ e e', SameEntry e e' → q e = q e')
    (hn : q new = true) : Inserted new (xs.filter q) (ys.filter q) := by
  induction h with
  | here hs =>
    rw [List.filter_cons_of_pos hn]
    exact .here (forall₂_sameEntry_filter hq hs)
  | @next e e' xs ys he _ ih =>
    have hqe := hq e e' he
    cases hqe' : q e' with
    | false =>
      rw [List.filter_cons_of_neg (by simp [hqe, hqe']), List.filter_cons_of_neg (by simp [hqe'])]
      exact ih
    | true =>
      rw [List.filter_cons_of_pos (by rw [hqe, hqe']), List.filter_cons_of_pos hqe']
      exact .next he ih

/-- What is read off the elements is what was read before, and what `new` adds. -/
theorem mem_filterMap_iff {f : Element → Option String} (hf : ∀ e e', SameEntry e e' → f e = f e')
    {x : String} : x ∈ ys.filterMap f ↔ x ∈ xs.filterMap f ∨ f new = some x := by
  simp only [List.mem_filterMap]
  induction h with
  | @here xs ys hs =>
    have same : (∃ e ∈ ys, f e = some x) ↔ ∃ e ∈ xs, f e = some x := by
      simp only [← List.mem_filterMap, filterMap_eq_of_sameEntry hf hs]
    rw [List.exists_mem_cons_iff, same, or_comm]
  | next he _ ih => rw [List.exists_mem_cons_iff, List.exists_mem_cons_iff, ih, hf _ _ he, or_assoc]

end Inserted

theorem inserted_of_map_entry {entry : NodeId × String × List Attribute} {xs ys : List Element}
    {before after : List (NodeId × String × List Attribute)}
    (hxs : xs.map Element.entry = before ++ after)
    (hys : ys.map Element.entry = before ++ entry :: after) :
    ∃ new, new.entry = entry ∧ Inserted new xs ys := by
  induction before generalizing xs ys with
  | nil =>
    obtain ⟨new, rest, rfl, hn, hrest⟩ := List.map_eq_cons_iff.1 hys
    exact ⟨new, hn, .here (forall₂_sameEntry_iff.2 (hxs.trans hrest.symm))⟩
  | cons first before ih =>
    obtain ⟨e, xs, rfl, he, hxs⟩ := List.map_eq_cons_iff.1 hxs
    obtain ⟨e', ys, rfl, he', hys⟩ := List.map_eq_cons_iff.1 hys
    obtain ⟨new, hn, inserted⟩ := ih hxs hys
    exact ⟨new, hn, .next (he.trans he'.symm) inserted⟩

namespace Document

/-- **An element appended** anywhere below the root is one more among the elements of the document. -/
theorem Sound.inserted_appendElement {d : Document} (h : d.Sound) {p : NodeId}
    (hp : p ∈ d.elements.map (·.id)) (tag : String) (attributes : List Attribute) :
    ∃ new : Element, new.entry = (d.nextId, Text.lower tag, Attribute.distinct attributes) ∧
      Inserted new d.elements (d.appendElement p tag attributes).elements := by
  cases hr : d.root? with
  | none => simp [elements, Document.root, hr] at hp
  | some r =>
    obtain ⟨above, hpe⟩ := (h.mem_elements_iff hr).1 hp
    obtain ⟨path, hpath⟩ := exists_path above
    have before := (h.grows_refl hr hpath hpe).elements
    have after := (h.grows_appendElement hr hpath hpe tag attributes).elements
    rw [List.append_nil] at before
    rw [List.append_assoc _ [_]] at after
    exact inserted_of_map_entry before after

/-- The document is a page before and after. -/
theorem exists_page_appendElement {d : Document} {p : NodeId} (hp : p ∈ d.elements.map (·.id))
    (tag : String) (attributes : List Attribute) (limits : Limits) : ∃ page page',
      Page.ofDocument? d limits = some page ∧
      Page.ofDocument? (d.appendElement p tag attributes) limits = some page' := by
  have same : (d.appendElement p tag attributes).root? = d.root? := rfl
  cases hr : d.root? with
  | none => simp [elements, root, hr] at hp
  | some r => simp [Page.ofDocument?, root, same, hr]

end Document

/-! ## Targets -/

/-- The target of a numbered element, if the test has something to say of it. -/
def Test.target? (test : Test) (x : Element × Nat) : Option (List String) :=
  if (test x.2 x.1).isSome then some [Locator.numbered x.1.tag x.2] else none

section
variable {html : Element → String} {locate : Element → Nat → Locator}
  (hl : ∀ e i, locate e i = ⟨e, Locator.numbered e.tag i, html e⟩)
include hl

theorem map_target_eq (test : Test) (xs : List Element) :
    (findingsIn locate test xs).map (·.target) = xs.zipIdx.filterMap test.target? := by
  rw [findingsIn, List.map_filterMap]
  refine List.filterMap_congr fun ⟨e, i⟩ _ => ?_
  cases ht : test i e with
  | none => simp [Test.target?, ht]
  | some summary => simp [Test.target?, ht, hl, Locator.finding]

/-- **Elements that keep their tags** are flagged with the same targets by tests that agree on them. -/
theorem map_target_findingsIn {R : Element → Element → Prop} (tag : ∀ e e', R e e' → e.tag = e'.tag)
    {test test' : Test} (ht : ∀ i e e', R e e' → (test i e).isSome = (test' i e').isSome)
    {xs ys : List Element} (h : List.Forall₂ R xs ys) :
    (findingsIn locate test xs).map (·.target) = (findingsIn locate test' ys).map (·.target) := by
  have numbered : ∀ i, (xs.zipIdx i).filterMap test.target? =
      (ys.zipIdx i).filterMap test'.target? := by
    induction h with
    | nil => exact fun _ => rfl
    | @cons e e' xs ys he _ ih =>
      intro i
      have one : test.target? (e, i) = test'.target? (e', i) := by
        rw [Test.target?, Test.target?, ht i e e' he, tag e e' he]
      rw [List.zipIdx_cons, List.zipIdx_cons, List.filterMap_cons, List.filterMap_cons, one, ih]
  rw [map_target_eq hl, map_target_eq hl, numbered 0]

end

end PageAudit
