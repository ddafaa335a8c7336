import PageAudit.Proofs.Document.Contents
import PageAudit.Proofs.Document.Loops

/-!
# Traversals by recursion

Descendants and text are collected by loops over a stack. Here they are what the recursion over the
children says.

* `Proper.descendants_eq`: an element comes first, then the descendants of its child elements in their
  order. So what is below a descendant is one block of the list (`Proper.exists_block`).
* `Proper.textContent_eq_join`: the text of an element is that of its children, joined.
* `Document.Ends`: the loops as they run, with the next node last on the stack and the children of an
  element put there in reverse. `Sound.ends_iff`: such a loop ends, and has collected from the nodes of
  the preorder in their order.
* `Document.traversals_of_steps`: all of this for every element of a document that steps have built.
-/

namespace PageAudit

/-! ## Loops over a stack -/

/-- A loop in progress: the nodes still to be visited, the next one last, and what is collected so
far. -/
structure Scan (α : Type) where
  stack : List NodeId
  found : α

namespace Document

variable {α : Type}

/-- **One turn of a loop**: the last node is taken off the stack and collected from, and the children
of an element are put on the stack, the first of them last. There is no turn for an empty stack, and
none for a number that the store does not have. -/
def turn? (d : Document) (collect : α → NodeId → α) (s : Scan α) : Option (Scan α) :=
  s.stack.getLast?.bind fun id => (d.kind? id).map fun
    | .text _ => ⟨s.stack.dropLast, collect s.found id⟩
    | .element .. => ⟨s.stack.dropLast ++ (d.childrenOf id).reverse, collect s.found id⟩

/-- The loop from a state ends with an empty stack, having collected `found`. -/
inductive Ends (d : Document) (collect : α → NodeId → α) : Scan α → α → Prop
  | done {s : Scan α} : s.stack = [] → Ends d collect s s.found
  | next {s s' : Scan α} {found : α} :
    d.turn? collect s = some s' → Ends d collect s' found → Ends d collect s found

/-- The elements among the nodes visited. -/
def collectElement (d : Document) (elements : List Element) (id : NodeId) : List Element :=
  if d.isElement id then elements ++ [⟨d, id⟩] else elements

/-- The texts of the nodes visited. -/
def collectText (d : Document) (text : String) (id : NodeId) : String :=
  text ++ d.textAt id

section
variable {d : Document} {collect : α → NodeId → α}

theorem turn?_of_nil {s : Scan α} (hs : s.stack = []) : d.turn? collect s = none := by
  simp [turn?, hs]

theorem turn?_text {id : NodeId} {content : String} (hk : d.kind? id = some (.text content))
    (stack : List NodeId) (found : α) :
    d.turn? collect ⟨stack ++ [id], found⟩ = some ⟨stack, collect found id⟩ := by
  simp [turn?, hk]

theorem turn?_element {id : NodeId} {tag : String} {attributes : List Attribute}
    (hk : d.kind? id = some (.element tag attributes)) (stack : List NodeId) (found : α) :
    d.turn? collect ⟨stack ++ [id], found⟩ =
      some ⟨stack ++ (d.childrenOf id).reverse, collect found id⟩ := by
  simp [turn?, hk]

theorem Ends.unique {s : Scan α} {r r' : α} (h : d.Ends collect s r) (h' : d.Ends collect s r') :
    r = r' := by
  induction h with
  | done hs =>
    cases h' with
    | done => rfl
    | next ht => cases (turn?_of_nil hs).symm.trans ht
  | next ht _ ih =>
    cases h' with
    | done hs => cases (turn?_of_nil hs).symm.trans ht
    | next ht' he =>
      cases ht.symm.trans ht'
      exact ih he

/-- The stack is the work list from its end. -/
theorem Visits.ends {pending visited : List NodeId} (hv : d.Visits pending visited) (found : α) :
    d.Ends collect ⟨pending.reverse, found⟩ (visited.foldl collect found) := by
  induction hv generalizing found with
  | done => exact .done rfl
  | text hk _ ih =>
    rw [List.reverse_cons]
    exact .next (turn?_text hk _ found) (ih _)
  | element hk _ ih =>
    rw [List.reverse_cons]
    refine .next (turn?_element hk _ found) ?_
    rw [← List.reverse_append]
    exact ih _

/-- **A loop from a node ends**, and it has collected from the preorder of the node. -/
theorem Sound.ends_iff (h : d.Sound) {id : NodeId} (hid : id < d.nodes.size) {init found : α} :
    d.Ends collect ⟨[id], init⟩ found ↔ found = (d.preorder id).foldl collect init := by
  have run : d.Ends collect ⟨[id], init⟩ ((d.preorder id).foldl collect init) :=
    ((h.visits_iff hid).2 rfl).ends init
  constructor
  · exact fun he => he.unique run
  · rintro rfl
    exact run

end

/-- The elements among some nodes. -/
def elementsAmong (d : Document) (ids : List NodeId) : List Element :=
  (ids.filter d.isElement).map (⟨d, ·⟩)

theorem elementsAmong_append (d : Document) (xs ys : List NodeId) :
    d.elementsAmong (xs ++ ys) = d.elementsAmong xs ++ d.elementsAmong ys := by
  simp [elementsAmong]

theorem elementsAmong_flatMap (d : Document) (xs : List NodeId) (f : NodeId → List NodeId) :
    d.elementsAmong (xs.flatMap f) = xs.flatMap fun x => d.elementsAmong (f x) := by
  rw [elementsAmong, List.filter_flatMap, List.map_flatMap]
  rfl

theorem foldl_collectElement (d : Document) (ids : List NodeId) (found : List Element) :
    ids.foldl d.collectElement found = found ++ d.elementsAmong ids := by
  induction ids generalizing found with
  | nil => simp [elementsAmong]
  | cons id ids ih =>
    rw [List.foldl_cons, ih]
    cases he : d.isElement id <;> simp [collectElement, elementsAmong, he]

theorem foldl_collectText (d : Document) (ids : List NodeId) :
    ids.foldl d.collectText "" = String.join (ids.map d.textAt) := by
  rw [String.join, List.foldl_map]
  rfl

/-- What a child adds to the text of an element: a text itself, an element its own text. -/
def contentOf (d : Document) (id : NodeId) : String :=
  match d.kind? id with
  | some (.text content) => content
  | _ => (⟨d, id⟩ : Element).textContent

end Document

/-! ## Recursion over the children -/

/-- Elements that a function maps to nothing can be left out. -/
theorem flatMap_filter_of_nil {α β : Type} {p : α → Bool} {f : α → List β} {xs : List α}
    (h : ∀ x ∈ xs, p x = false → f x = []) : (xs.filter p).flatMap f = xs.flatMap f := by
  induction xs with
  | nil => rfl
  | cons x xs ih =>
    have hrest := ih fun y hy => h y (List.mem_cons_of_mem _ hy)
    cases hp : p x with
    | true => rw [List.filter_cons_of_pos hp, List.flatMap_cons, List.flatMap_cons, hrest]
    | false =>
      rw [List.filter_cons_of_neg (by simp [hp]), List.flatMap_cons, h x (by simp) hp, hrest,
        List.nil_append]

namespace Element

theorem descendants_eq_elementsAmong (e : Element) :
    e.descendants = e.document.elementsAmong (e.document.preorder e.id) := rfl

theorem mem_findAll_iff {e x : Element} {tags : List String} :
    x ∈ e.findAll tags ↔ x ∈ e.descendants ∧ x.tag ∈ tags := by
  rw [findAll, List.mem_filter, List.contains_iff_mem]

namespace Proper

variable {e : Element} (he : e.Proper)
include he

/-- **Descendants by recursion**: the element, then the descendants of its child elements. -/
theorem descendants_eq : e.descendants = e :: e.children.flatMap (·.descendants) := by
  -- the children that are texts have no elements below
  have hleaf : ∀ c ∈ e.document.childrenOf e.id, e.document.isElement c = false →
      e.document.elementsAmong (e.document.preorder c) = [] := by
    intro c hc hce
    obtain ⟨kind, hk⟩ := Document.exists_kind_of_lt (he.sound.child_lt_size e.id c hc)
    cases kind with
    | text content => simp [he.sound.preorder_of_text hk, Document.elementsAmong, hce]
    | element tag attributes =>
      rw [Document.isElement_iff.2 ⟨tag, attributes, hk⟩] at hce
      cases hce
  have hself : e.document.elementsAmong [e.id] = [e] := by
    simp [Document.elementsAmong, he.isElement]
  have hpre := he.sound.preorder_eq he.lt_size
  rw [← List.singleton_append] at hpre
  rw [he.children_eq, List.flatMap_map, e.descendants_eq_elementsAmong, hpre,
    Document.elementsAmong_append, hself, Document.elementsAmong_flatMap, List.singleton_append]
  exact congrArg (e :: ·) (flatMap_filter_of_nil hleaf).symm

theorem nodup_descendants : e.descendants.Nodup := by
  refine List.Nodup.map (fun a b hab => ?_) ((he.sound.nodup_preorder he.lt_size).filter _)
  exact congrArg Element.id hab

/-- **Text by recursion**: what the children add, in their order. -/
theorem textContent_eq_join : e.textContent =
    String.join ((e.document.childrenOf e.id).map e.document.contentOf) := by
  obtain ⟨tag, attributes, hk⟩ := Document.isElement_iff.1 he.isElement
  have htree : e.tree = _ := he.sound.tree_element hk
  rw [he.textContent_eq, htree, Tree.content, Tree.contentAll_map]
  refine congrArg String.join (List.map_congr_left fun c hc => ?_)
  obtain ⟨kind, hkc⟩ := Document.exists_kind_of_lt (he.sound.child_lt_size e.id c hc)
  unfold Document.contentOf
  rw [hkc]
  cases kind with
  | text content => rw [Document.Sound.tree_text hkc, Tree.content]
  | element tag attributes =>
    have hc : (⟨e.document, c⟩ : Element).Proper :=
      ⟨he.sound, Document.isElement_iff.2 ⟨tag, attributes, hkc⟩⟩
    exact hc.textContent_eq.symm

/-- **What is below a descendant is one block** of the descendants, and begins with it. -/
theorem exists_block : ∀ x ∈ e.descendants, ∃ before below after,
    x.descendants = x :: below ∧ e.descendants = before ++ x.descendants ++ after := by
  intro x hx
  have hxp := he.of_mem_descendants x hx
  obtain ⟨id, hid, rfl⟩ := List.mem_map.1 hx
  have above := (he.sound.mem_preorder he.lt_size).1 (List.mem_of_mem_filter hid)
  obtain ⟨path, hpath⟩ := Document.exists_path above
  refine ⟨e.document.elementsAmong (e.document.before path), _,
    e.document.elementsAmong (e.document.after path), hxp.descendants_eq, ?_⟩
  rw [e.descendants_eq_elementsAmong, he.sound.preorder_path hpath he.lt_size,
    Document.elementsAmong_append, Document.elementsAmong_append]
  rfl

/-- What is below a descendant is below the element. -/
theorem descendants_subset {x : Element} (hx : x ∈ e.descendants) :
    x.descendants ⊆ e.descendants := by
  obtain ⟨before, below, after, -, block⟩ := he.exists_block x hx
  intro c hc
  rw [block]
  exact List.mem_append_left _ (List.mem_append_right _ hc)

theorem mem_map_id_descendants_iff {id : NodeId} (hid : e.document.isElement id = true) :
    id ∈ e.descendants.map (·.id) ↔ e.document.Above e.id id := by
  rw [← he.sound.mem_preorder he.lt_size, descendants, List.map_map]
  simp [hid]

end Proper

/-- **The traversals of an element by recursion** over its children, and the loops that compute
them. -/
structure Recursive (e : Element) : Prop where
  descendants : e.descendants = e :: e.children.flatMap (·.descendants)
  nodup : e.descendants.Nodup
  block : ∀ x ∈ e.descendants, ∃ before below after,
    x.descendants = x :: below ∧ e.descendants = before ++ x.descendants ++ after
  textContent : e.textContent =
    String.join ((e.document.childrenOf e.id).map e.document.contentOf)
  findAll : ∀ tags, (e.findAll tags).Sublist e.descendants ∧
    ∀ x, x ∈ e.findAll tags ↔ x ∈ e.descendants ∧ x.tag ∈ tags
  elementLoop : ∀ found, e.document.Ends e.document.collectElement ⟨[e.id], []⟩ found ↔
    found = e.descendants
  textLoop : ∀ found, e.document.Ends e.document.collectText ⟨[e.id], ""⟩ found ↔
    found = e.textContent

theorem Proper.recursive {e : Element} (he : e.Proper) : e.Recursive where
  descendants := he.descendants_eq
  nodup := he.nodup_descendants
  block := he.exists_block
  textContent := he.textContent_eq_join
  findAll := fun _ => ⟨List.filter_sublist, fun _ => mem_findAll_iff⟩
  elementLoop := fun _ => by
    rw [he.sound.ends_iff he.lt_size, Document.foldl_collectElement, List.nil_append,
      Element.descendants_eq_elementsAmong]
  textLoop := fun _ => by
    rw [he.sound.ends_iff he.lt_size, Document.foldl_collectText, Element.textContent]

end Element

namespace Document

/-! ## The elements of a document -/

/-- The elements of a document are what is below its root. -/
theorem Sound.exists_proper_root {d : Document} (h : d.Sound) {e : Element} (he : e ∈ d.elements) :
    ∃ root : Element, root.document = d ∧ root.Proper ∧ d.elements = root.descendants := by
  cases hr : d.root? with
  | none => simp [Document.elements, Document.root, hr] at he
  | some r => exact ⟨⟨d, r⟩, rfl, ⟨h, h.root r hr⟩, by simp [Document.elements, Document.root, hr]⟩

theorem Sound.proper_of_mem_elements {d : Document} (h : d.Sound) {e : Element}
    (he : e ∈ d.elements) : e.document = d ∧ e.Proper := by
  obtain ⟨root, hd, proper, elements⟩ := h.exists_proper_root he
  rw [elements] at he
  refine ⟨?_, proper.of_mem_descendants e he⟩
  obtain ⟨id, -, rfl⟩ := List.mem_map.1 he
  exact hd

theorem Sound.isElement_of_mem_elements {d : Document} (h : d.Sound) {id : NodeId}
    (hid : id ∈ d.elements.map (·.id)) : d.isElement id = true := by
  obtain ⟨e, he, rfl⟩ := List.mem_map.1 hid
  obtain ⟨rfl, proper⟩ := h.proper_of_mem_elements he
  exact proper.isElement

/-- What is below an element of the document is in the document. -/
theorem Sound.descendants_subset_elements {d : Document} (h : d.Sound) {e : Element}
    (he : e ∈ d.elements) : e.descendants ⊆ d.elements := by
  obtain ⟨root, -, proper, elements⟩ := h.exists_proper_root he
  rw [elements] at he ⊢
  exact proper.descendants_subset he

theorem Sound.nodup_elements {d : Document} (h : d.Sound) : d.elements.Nodup := by
  unfold elements Document.root
  cases hr : d.root? with
  | none => simp
  | some id => exact Element.Proper.nodup_descendants ⟨h, h.root id hr⟩

/-- **Every traversal is the recursion.** Whatever steps have built a document, the descendants of each
of its elements are the element and then the descendants of its child elements, in order and without
repetition; those of a descendant are one block of them. The text is that of the children, joined. A
search by tags finds the elements with one of the tags, each once and in their order. -/
theorem traversals_of_steps (steps : List BuildStep) :
    (∀ id, (ofSteps steps).isElement id = true → Element.Recursive ⟨ofSteps steps, id⟩) ∧
    (ofSteps steps).elements.Nodup ∧
    ∀ tags, ((ofSteps steps).elementsByTag tags).Sublist (ofSteps steps).elements ∧
      ∀ x, x ∈ (ofSteps steps).elementsByTag tags ↔ x ∈ (ofSteps steps).elements ∧ x.tag ∈ tags := by
  have h : (ofSteps steps).Sound := (Build.ok_run steps).sound
  refine ⟨fun id hid => Element.Proper.recursive ⟨h, hid⟩, h.nodup_elements, fun tags => ?_⟩
  unfold elementsByTag elements
  cases (ofSteps steps).root with
  | none => simp
  | some root => exact ⟨List.filter_sublist, fun _ => Element.mem_findAll_iff⟩

/-- A paragraph with a text, an element with a text in it, and a text that was added before that. -/
def mixedContent : List BuildStep :=
  [.root "html" [], .element 0 "p" [], .text 1 "a", .element 1 "b" [], .text 1 "c", .text 2 "d",
    .element 0 "i" []]

/-- The text of the inner element stands between the two others, and the loop collects it there. -/
theorem traversals_of_steps_mixedContent :
    (ofSteps mixedContent).preorder 0 = [0, 1, 2, 3, 5, 4, 6] ∧
      (ofSteps mixedContent).Ends (ofSteps mixedContent).collectText ⟨[1], ""⟩ "adc" ∧
      Element.Recursive ⟨ofSteps mixedContent, 0⟩ := by
  obtain ⟨elements, -⟩ := traversals_of_steps mixedContent
  have paragraph := elements 1 (by decide)
  exact ⟨by decide, (paragraph.textLoop "adc").2 (by decide), elements 0 (by decide)⟩

end Document

end PageAudit
