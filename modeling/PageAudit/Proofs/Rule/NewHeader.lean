import PageAudit.Proofs.Document.Parsed
import PageAudit.Proofs.Document.Recursion
import PageAudit.Proofs.Rule.Fields
import PageAudit.Proofs.Rule.NewElement

/-!
# A new header cell

A table has a header cell if there is one anywhere below it, also in a table inside of it, and a caption
if that is a child of its own. So a header cell that is appended to an element counts for all tables
around the element, and for no other.

* `Document.Kept`: one element before and after an append. `Kept.tags_iff` says what becomes of the tags
  below it, `Kept.hasChild_eq` of its children.
* `Catalogue.headersMissing_nested`: a table without header cells holds no table that has one.
* `Catalogue.new_header`: so the tables that are flagged for missing header cells are those that were,
  without the ones around the new cell, and a caption is missing where it was missing.
-/

namespace PageAudit

open Element (SameEntry)

/-! ## Tags below an element -/

namespace Element

/-- Whether a tag is among some elements is to be seen from their entries. -/
theorem forall_tag_ne_iff {xs : List Element} {tag : String} :
    (∀ c ∈ xs, c.tag ≠ tag) ↔ ∀ entry ∈ xs.map Element.entry, entry.2.1 ≠ tag := by
  rw [List.forall_mem_map]
  rfl

theorem isEmpty_findAll_iff {e : Element} {tag : String} :
    (e.findAll [tag]).isEmpty = true ↔ ∀ c ∈ e.descendants, c.tag ≠ tag := by
  simp [findAll, List.filter_eq_nil_iff]

theorem Proper.hasChild_eq {e : Element} (he : e.Proper) (tag : String) :
    e.hasChild tag = (e.document.entries (e.document.childrenOf e.id)).any (·.2.1 == tag) := by
  rw [hasChild, he.children_eq, Document.entries, List.any_map, List.any_map]
  rfl

end Element

namespace Document

/-! ## An element before and after -/

/-- `e'` is in the document `d'` the element that `e` is in `d`. -/
structure Kept (d d' : Document) (e e' : Element) : Prop where
  before : e.document = d
  after : e'.document = d'
  entry : e.SameEntry e'
  stored : d.isElement e.id = true

namespace Kept

variable {d : Document} (h : d.Sound) {p : NodeId} (hp : d.isElement p = true) {tag : String}
  {attributes : List Attribute} {e e' : Element}
  (kept : d.Kept (d.appendElement p tag attributes) e e')
include h hp kept

theorem proper : e.Proper ∧ e'.Proper := by
  have hx := h.extends_append hp (n := .element tag attributes) rfl
  obtain ⟨before, after, entry, stored⟩ := kept
  have same : e.id = e'.id := congrArg Prod.fst entry
  refine ⟨⟨before ▸ h, before ▸ stored⟩, ⟨after ▸ hx.sound, ?_⟩⟩
  rw [after, ← same]
  exact isElement_append p _ stored

/-- **A new element** is below those that it is appended to, or below which that is, and below no
others. -/
theorem tags_iff : (∀ c ∈ e'.descendants, c.tag ≠ Text.lower tag) ↔
    (∀ c ∈ e.descendants, c.tag ≠ Text.lower tag) ∧ ¬ d.Above e.id p := by
  have hx := h.extends_append hp (n := .element tag attributes) rfl
  obtain ⟨d, x⟩ := e
  obtain ⟨d', y⟩ := e'
  obtain ⟨rfl, rfl, entry, stored⟩ := kept
  obtain rfl : x = y := congrArg Prod.fst entry
  have hxs := lt_size_of_isElement stored
  rw [Element.forall_tag_ne_iff, Element.forall_tag_ne_iff, map_entry_descendants,
    map_entry_descendants]
  by_cases above : d.Above x p
  · -- the new node is a child of `p`, and so below `x`
    have new : d.nextId ∈ (d.append p (.element tag attributes)).preorder x := by
      rw [hx.sound.mem_preorder (hx.lt_size hxs)]
      exact (hx.above above).tail (by simp [hx.children])
    refine ⟨fun hn => ?_, fun hn => absurd above hn.2⟩
    have among : (d.nextId, Text.lower tag, Attribute.distinct attributes) ∈
        (d.append p (.element tag attributes)).entries
          ((d.append p (.element tag attributes)).preorder x) := by
      obtain ⟨before, after, split⟩ := List.append_of_mem new
      rw [split, ← List.singleton_append, entries_append, entries_append, entries_nextId_append]
      simp
    exact absurd rfl (hn _ among)
  · rw [appendElement_eq, hx.preorder_of_not_above h hxs above,
      hx.entries_eq fun id hid => h.lt_size_of_mem_preorder hxs hid, and_iff_left above]

/-- An element has got no child with another tag than the new one. -/
theorem hasChild_eq {child : String} (hne : Text.lower tag ≠ child) :
    e'.hasChild child = e.hasChild child := by
  have hx := h.extends_append hp (n := .element tag attributes) rfl
  obtain ⟨proper, proper'⟩ := kept.proper h hp
  rw [proper.hasChild_eq, proper'.hasChild_eq]
  obtain ⟨d, x⟩ := e
  obtain ⟨d', y⟩ := e'
  obtain ⟨rfl, rfl, entry, stored⟩ := kept
  obtain rfl : x = y := congrArg Prod.fst entry
  have old := hx.entries_eq (h.child_lt_size x)
  dsimp only
  rw [appendElement_eq]
  by_cases hxp : x = p
  · rw [hxp] at old ⊢
    rw [hx.children, entries_append, old, entries_nextId_append, List.any_append]
    simp [hne]
  · rw [hx.children_of_ne x hxp, old]

end Kept

end Document

namespace Rule

theorem locateTable_eq (e : Element) (i : Nat) : locateTable e i =
    ⟨e, Locator.numbered e.tag i, e.excerpt Locator.largeExcerpt⟩ := rfl

/-- The test for header cells. -/
def headerless : Test := fun _ e =>
  if (e.findAll ["th"]).isEmpty then some "Table has no <th> header cells" else none

/-- The test for a caption. -/
def captionless : Test := fun _ e =>
  if e.hasChild "caption" then none else some "Table has no <caption> element"

theorem findings_tableHeaders (p : Page) :
    (tableHeaders.check p).findings = findingsIn locateTable headerless (tables p) := rfl

theorem findings_tableCaption (p : Page) :
    (tableCaption.check p).findings = findingsIn locateTable captionless (tables p) := rfl

theorem isSome_headerless_iff {i : Nat} {e : Element} :
    (headerless i e).isSome = true ↔ ∀ c ∈ e.descendants, c.tag ≠ "th" := by
  rw [← Element.isEmpty_findAll_iff, headerless]
  cases (e.findAll ["th"]).isEmpty <;> simp

theorem isSome_captionless (i : Nat) (e : Element) :
    (captionless i e).isSome = !e.hasChild "caption" := by
  unfold captionless
  cases e.hasChild "caption" <;> rfl

section
variable {d : Document} (h : d.Sound) {p : NodeId} (hp : d.isElement p = true)
  {attributes : List Attribute} {e e' : Element}
  (kept : d.Kept (d.appendElement p "th" attributes) e e')
include h hp kept

theorem headerless_of_kept (i : Nat) : (headerless i e').isSome = true ↔
    (headerless i e).isSome = true ∧ ¬ d.Above e.id p := by
  have tags := kept.tags_iff h hp
  rw [show Text.lower "th" = "th" from by decide] at tags
  rw [isSome_headerless_iff, isSome_headerless_iff, tags]

theorem captionless_of_kept (i : Nat) : (captionless i e').isSome = (captionless i e).isSome := by
  rw [isSome_captionless, isSome_captionless, kept.hasChild_eq h hp (by decide)]

end

end Rule

namespace Catalogue

open Rule Document

/-! ## Tables inside of tables -/

/-- The rule on header cells flags the table at `index`. -/
def HeadersMissing (p : Page) (index : Nat) : Prop :=
  ∃ f ∈ (tableHeaders.check p).findings,
    ShowsAt (·.excerpt Locator.largeExcerpt) (tables p) f index

theorem headersMissing_iff {p : Page} {i : Nat} {t : Element} (ht : (tables p)[i]? = some t) :
    HeadersMissing p i ↔ ∀ c ∈ t.descendants, c.tag ≠ "th" := by
  rw [HeadersMissing, findings_tableHeaders,
    exists_showsAt_iff locateTable_eq,
    ← isSome_headerless_iff (i := i), Option.isSome_iff_exists, ht]
  simp

section
variable {d : Document} (h : d.Sound) {limits : Limits} {p : Page}
  (hp : Page.ofDocument? d limits = some p)
include h hp

/-- **A table without header cells** holds no table that has one. -/
theorem headersMissing_nested {i : Nat} {t : Element} (ht : (tables p)[i]? = some t)
    (missing : HeadersMissing p i) : ∀ u ∈ t.findAll ["table"],
      ∃ j : Nat, (tables p)[j]? = some u ∧ HeadersMissing p j := by
  intro u hu
  obtain ⟨hut, tag⟩ := Element.mem_findAll_iff.1 hu
  have htd : t ∈ d.elements := ((mem_elements_iff hp).1 (List.mem_of_getElem? ht)).1
  have hup : u ∈ tables p := (mem_elements_iff hp).2 ⟨h.descendants_subset_elements htd hut, tag⟩
  obtain ⟨j, hj⟩ := List.getElem?_of_mem hup
  refine ⟨j, hj, (headersMissing_iff hj).2 fun c hc => ?_⟩
  have inside := (h.proper_of_mem_elements htd).2.descendants_subset hut
  exact (headersMissing_iff ht).1 missing c (inside hc)

end

/-! ## A new cell -/

/-- **The tables stay the same**, since a header cell is none. -/
theorem tables_kept {d : Document} (h : d.Sound) {id : NodeId} (hid : id ∈ d.elements.map (·.id))
    {attributes : List Attribute} {limits : Limits} {p p' : Page}
    (hp : Page.ofDocument? d limits = some p)
    (hp' : Page.ofDocument? (d.appendElement id "th" attributes) limits = some p') :
    List.Forall₂ (d.Kept (d.appendElement id "th" attributes)) (tables p) (tables p') := by
  obtain ⟨new, entry, inserted⟩ := h.inserted_appendElement hid "th" attributes
  have tag : new.tag = Text.lower "th" := congrArg (·.2.1) entry
  have same : List.Forall₂ SameEntry (tables p) (tables p') := by
    unfold tables Page.elements Element.findAll
    rw [← elements_eq_of_page hp, ← elements_eq_of_page hp']
    exact inserted.filter_of_neg (fun e e' he => by rw [he.tag]) (by rw [tag]; rfl)
  have sound' := (h.extends_append (h.isElement_of_mem_elements hid)
    (n := .element "th" attributes) rfl).sound
  refine List.forall₂_iff_zip.2 ⟨same.length_eq, fun {t t'} hm => ?_⟩
  obtain ⟨ht, ht'⟩ := List.of_mem_zip hm
  obtain ⟨before, stored⟩ := h.proper_of_mem_elements ((mem_elements_iff hp).1 ht).1
  obtain ⟨after, -⟩ := sound'.proper_of_mem_elements ((mem_elements_iff hp').1 ht').1
  exact ⟨before, after, List.forall₂_zip same hm, before ▸ stored.isElement⟩

/-- **A new header cell**, in any element `id` of a page. A table is flagged for missing header cells if
there is none below it, and then the tables inside of it are flagged too. The tables and their numbers
stay as they are, and those that are flagged are those that were flagged before, without the tables that
are the element `id` or above it. For a missing caption the same tables are flagged as before. -/
theorem new_header :
    (∀ steps, (Document.ofSteps steps).Sound) ∧ (∀ n, (Document.ofParsed n).Sound) ∧
    ∀ d : Document, d.Sound →
      (∀ limits p, Page.ofDocument? d limits = some p → ∀ i t, (tables p)[i]? = some t →
        (HeadersMissing p i ↔ ∀ c ∈ t.descendants, c.tag ≠ "th") ∧
        (HeadersMissing p i → ∀ u ∈ t.findAll ["table"],
          ∃ j : Nat, (tables p)[j]? = some u ∧ HeadersMissing p j)) ∧
      ∀ id ∈ d.elements.map (·.id), ∀ (attributes : List Attribute) (limits : Limits),
        ∃ p p', Page.ofDocument? d limits = some p ∧
          Page.ofDocument? (d.appendElement id "th" attributes) limits = some p' ∧
          (tables p').map Element.entry = (tables p).map Element.entry ∧
          (∀ t ∈ tables p, id ∈ t.descendants.map (·.id) ↔ d.Above t.id id) ∧
          (tableHeaders.check p').findings.map (·.target) =
            ((tableHeaders.check p).findings.filter fun f =>
              (f.element? (tables p)).any fun t => id ∉ t.descendants.map (·.id)).map (·.target) ∧
          (tableCaption.check p').findings.map (·.target) =
            (tableCaption.check p).findings.map (·.target) := by
  refine ⟨fun steps => (Build.ok_run steps).sound, sound_ofParsed, fun d h =>
    ⟨fun limits p hp i t ht => ⟨headersMissing_iff ht, headersMissing_nested h hp ht⟩,
      fun id hid attributes limits => ?_⟩⟩
  obtain ⟨p, p', hp, hp'⟩ := exists_page_appendElement hid "th" attributes limits
  have kept := tables_kept h hid hp hp'
  have isElement := h.isElement_of_mem_elements hid
  refine ⟨p, p', hp, hp', ?_, fun t ht => ?_, ?_, ?_⟩
  · exact (forall₂_sameEntry_iff.1 (kept.imp fun _ _ k => k.entry)).symm
  · obtain ⟨rfl, proper⟩ := h.proper_of_mem_elements ((mem_elements_iff hp).1 ht).1
    exact proper.mem_map_id_descendants_iff isElement
  · rw [findings_tableHeaders, findings_tableHeaders, Finding.filter_findingsIn locateTable_eq]
    refine (map_target_findingsIn locateTable_eq (fun _ _ k => k.entry.tag)
      (fun i t t' k => ?_) kept).symm
    have around : id ∈ t.descendants.map (·.id) ↔ d.Above t.id id := by
      have proper := (k.proper h isElement).1
      obtain rfl := k.before
      exact proper.mem_map_id_descendants_iff isElement
    rw [Bool.eq_iff_iff, headerless_of_kept h isElement k, ← around]
    by_cases inside : id ∈ t.descendants.map (·.id) <;> simp [inside]
  · rw [findings_tableCaption, findings_tableCaption]
    refine (map_target_findingsIn locateTable_eq (fun _ _ k => k.entry.tag)
      (fun i t t' k => ?_) kept).symm
    exact (captionless_of_kept h isElement k i).symm

/-- A table in a cell of another one, and a table beside them. -/
def nestedTables : Document :=
  .ofSteps [.root "body" [], .element 0 "table" [], .element 1 "tr" [], .element 2 "td" [],
    .element 3 "table" [], .element 0 "table" []]

/-- A header cell in the row of the outer table is not one of the table inside of it. -/
theorem new_header_nestedTables : ∃ p p', Page.ofDocument? nestedTables {} = some p ∧
    Page.ofDocument? (nestedTables.appendElement 2 "th" []) {} = some p' ∧
    (∃ j : Nat, (tables p)[j]? = some ⟨nestedTables, 4⟩ ∧ HeadersMissing p j) ∧
    (tableHeaders.check p).findings.map (·.target) =
      [["table:nth-child(1)"], ["table:nth-child(2)"], ["table:nth-child(3)"]] ∧
    (tableHeaders.check p').findings.map (·.target) =
      [["table:nth-child(2)"], ["table:nth-child(3)"]] ∧
    (tableCaption.check p').findings.map (·.target) =
      [["table:nth-child(1)"], ["table:nth-child(2)"], ["table:nth-child(3)"]] := by
  obtain ⟨sound, -, laws⟩ := new_header
  obtain ⟨nested, added⟩ := laws nestedTables (sound _)
  obtain ⟨p, p', hp, hp', -, -, headers, captions⟩ := added 2 (by decide) [] {}
  obtain rfl : ⟨nestedTables, ⟨nestedTables, 0⟩, {}⟩ = p := Option.some.inj hp
  obtain ⟨missing, inside⟩ := nested {} _ hp 0 ⟨nestedTables, 1⟩ rfl
  refine ⟨_, p', hp, hp', ?_, by decide, ?_, ?_⟩
  · exact inside (missing.2 (by decide)) ⟨nestedTables, 4⟩ (.tail _ (.head _))
  · rw [headers]
    decide
  · rw [captions]
    decide

end Catalogue

end PageAudit
