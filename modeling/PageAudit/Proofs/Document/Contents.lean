import PageAudit.Proofs.Document.Growth
import Mathlib.Data.List.Forall2

/-!
# What a tree says of an element

Every query of an element in a sound document has its answer in the tree of the element: the tag and
the attributes (`Proper.head_eq`), the text (`Proper.textContent_eq`), and the trees of the children
and of all elements below (`Proper.map_tree_children`, `Proper.map_tree_descendants`).

So two elements with the same tree (`Element.Alike`), of one document or of two, give the same answers,
and their children and descendants are alike one by one. How the nodes are numbered and what else the
documents hold makes no difference.
-/

namespace PageAudit

namespace Tree

def isElement : Tree → Bool
  | .element .. => true
  | .text _ => false

/-- The tag and the attributes. -/
def head : Tree → String × List Attribute
  | .element tag attributes _ => (tag, attributes)
  | .text _ => ("", [])

/-- The children that are elements. -/
def elementChildren : Tree → List Tree
  | .element _ _ children => children.filter isElement
  | .text _ => []

mutual

/-- The elements of a tree, each before those below it. -/
def elements : Tree → List Tree
  | .element tag attributes children => .element tag attributes children :: elementsAll children
  | .text _ => []

def elementsAll : List Tree → List Tree
  | [] => []
  | t :: ts => elements t ++ elementsAll ts

end

mutual

/-- The texts of a tree, joined. -/
def content : Tree → String
  | .element _ _ children => contentAll children
  | .text content => content

def contentAll : List Tree → String
  | [] => ""
  | t :: ts => content t ++ contentAll ts

end

theorem elementsAll_map {α : Type} (f : α → Tree) (xs : List α) :
    elementsAll (xs.map f) = xs.flatMap fun x => elements (f x) := by
  induction xs with
  | nil => rfl
  | cons x xs ih => rw [List.map_cons, elementsAll, ih, List.flatMap_cons]

theorem contentAll_map {α : Type} (f : α → Tree) (xs : List α) :
    contentAll (xs.map f) = String.join (xs.map fun x => content (f x)) := by
  induction xs with
  | nil => simp [contentAll]
  | cons x xs ih => rw [List.map_cons, contentAll, ih, List.map_cons, String.join_cons]

end Tree

namespace Document

theorem textOf_flatMap (d : Document) (xs : List NodeId) (f : NodeId → List NodeId) :
    d.textOf (xs.flatMap f) = String.join (xs.map fun x => d.textOf (f x)) := by
  induction xs with
  | nil => simp
  | cons x xs ih => rw [List.flatMap_cons, textOf_append, ih, List.map_cons, String.join_cons]

theorem isElement_tree {d : Document} {id : NodeId} {kind : NodeKind} (hk : d.kind? id = some kind)
    (h : d.Sound) : (d.tree id).isElement = d.isElement id := by
  cases kind with
  | text content =>
    rw [Sound.tree_text hk, Tree.isElement, isElement_of_text hk]
  | element tag attributes =>
    rw [h.tree_element hk, Tree.isElement, eq_comm, isElement_iff]
    exact ⟨tag, attributes, hk⟩

namespace Sound

variable {d : Document} (h : d.Sound)
include h

/-- A text node has a tree without elements, and its walk meets no element. -/
theorem preorder_of_text {id : NodeId} {content : String} (hk : d.kind? id = some (.text content)) :
    d.preorder id = [id] := by
  rw [h.preorder_eq (lt_size_iff.2 (by simp [hk])), h.childrenOf_of_text hk]
  rfl

/-- **The elements of a walk** have the elements of the tree. -/
theorem map_tree_preorder {id : NodeId} (hid : id < d.nodes.size) :
    ((d.preorder id).filter d.isElement).map d.tree = (d.tree id).elements := by
  induction id using h.induction with
  | step id ih =>
    obtain ⟨kind, hk⟩ := exists_kind_of_lt hid
    cases kind with
    | text content =>
      have he : d.isElement id = false := isElement_of_text hk
      rw [h.preorder_of_text hk, tree_text hk]
      simp [he, Tree.elements]
    | element tag attributes =>
      have he : d.isElement id = true := isElement_iff.2 ⟨tag, attributes, hk⟩
      have hbelow : (((d.childrenOf id).flatMap d.preorder).filter d.isElement).map d.tree =
          (d.childrenOf id).flatMap fun c => (d.tree c).elements := by
        rw [List.filter_flatMap, List.map_flatMap]
        exact List.flatMap_congr fun c hc => ih c hc (h.child_lt_size id c hc)
      rw [h.preorder_eq hid, List.filter_cons_of_pos he, List.map_cons, hbelow,
        h.tree_element hk, Tree.elements, Tree.elementsAll_map]

/-- **The texts of a walk** are the text of the tree. -/
theorem textOf_preorder {id : NodeId} (hid : id < d.nodes.size) :
    d.textOf (d.preorder id) = (d.tree id).content := by
  induction id using h.induction with
  | step id ih =>
    obtain ⟨kind, hk⟩ := exists_kind_of_lt hid
    cases kind with
    | text content =>
      rw [h.preorder_of_text hk, tree_text hk]
      simp [textOf, textAt_eq, hk, Tree.content]
    | element tag attributes =>
      have hown : d.textOf [id] = "" := by simp [textOf, textAt_eq, hk]
      rw [h.preorder_eq hid, ← List.singleton_append, textOf_append, hown, String.empty_append,
        textOf_flatMap, h.tree_element hk, Tree.content, Tree.contentAll_map]
      refine congrArg String.join (List.map_congr_left fun c hc => ?_)
      exact ih c hc (h.child_lt_size id c hc)

end Sound

end Document

namespace Element

/-- An element node of a sound document. -/
structure Proper (e : Element) : Prop where
  sound : e.document.Sound
  isElement : e.document.isElement e.id = true

namespace Proper

variable {e : Element} (he : e.Proper)
include he

theorem lt_size : e.id < e.document.nodes.size :=
  Document.lt_size_of_isElement he.isElement

theorem head_eq : e.head = e.tree.head := by
  obtain ⟨tag, attributes, hk⟩ := Document.isElement_iff.1 he.isElement
  have htree : e.tree = _ := he.sound.tree_element hk
  have hhead : e.head = _ := Document.head_eq e.document e.id
  rw [htree, hhead, hk]
  rfl

theorem textContent_eq : e.textContent = e.tree.content :=
  (Document.textContent_eq e.document e.id).trans (he.sound.textOf_preorder he.lt_size)

theorem map_tree_descendants : e.descendants.map tree = e.tree.elements := by
  unfold descendants
  rw [List.map_map]
  exact he.sound.map_tree_preorder he.lt_size

theorem of_mem_descendants : ∀ x ∈ e.descendants, x.Proper := by
  intro x hx
  obtain ⟨id, hid, rfl⟩ := List.mem_map.1 hx
  exact ⟨he.sound, (List.mem_filter.1 hid).2⟩

theorem children_eq : e.children =
    ((e.document.childrenOf e.id).filter e.document.isElement).map (⟨e.document, ·⟩) := by
  obtain ⟨n, hn, hc⟩ := Document.exists_node_of_lt he.lt_size
  unfold children
  rw [hn, hc]

theorem map_tree_children : e.children.map tree = e.tree.elementChildren := by
  obtain ⟨tag, attributes, hk⟩ := Document.isElement_iff.1 he.isElement
  have htree : e.tree = _ := he.sound.tree_element hk
  have hfilter : (e.document.childrenOf e.id).filter e.document.isElement =
      (e.document.childrenOf e.id).filter fun c => (e.document.tree c).isElement := by
    refine List.filter_congr fun c hc => ?_
    have hs := he.sound.child_lt_size e.id c hc
    obtain ⟨kind, hkc⟩ := Document.exists_kind_of_lt hs
    exact (Document.isElement_tree hkc he.sound).symm
  rw [he.children_eq, htree, Tree.elementChildren, hfilter, List.filter_map, List.map_map]
  rfl

theorem of_mem_children : ∀ x ∈ e.children, x.Proper := by
  intro x hx
  rw [he.children_eq] at hx
  obtain ⟨id, hid, rfl⟩ := List.mem_map.1 hx
  exact ⟨he.sound, (List.mem_filter.1 hid).2⟩

end Proper

/-! ## Elements with the same tree -/

/-- Two elements with the same tree. -/
structure Alike (e e' : Element) : Prop where
  left : e.Proper
  right : e'.Proper
  tree : e.tree = e'.tree

/-- Elements whose trees are the same one by one are alike one by one. -/
theorem forall₂_alike : ∀ {xs ys : List Element}, (∀ x ∈ xs, x.Proper) → (∀ y ∈ ys, y.Proper) →
    xs.map Element.tree = ys.map Element.tree → List.Forall₂ Alike xs ys
  | [], [], _, _, _ => .nil
  | [], _ :: _, _, _, h => by simp at h
  | _ :: _, [], _, _, h => by simp at h
  | x :: xs, y :: ys, hx, hy, h => by
    rw [List.map_cons, List.map_cons, List.cons.injEq] at h
    obtain ⟨hxp, hxs⟩ := List.forall_mem_cons.1 hx
    obtain ⟨hyp, hys⟩ := List.forall_mem_cons.1 hy
    exact .cons ⟨hxp, hyp, h.1⟩ (forall₂_alike hxs hys h.2)

namespace Alike

variable {e e' : Element} (h : e.Alike e')
include h

theorem head : e.head = e'.head := by
  rw [h.left.head_eq, h.right.head_eq, h.tree]

theorem tag : e.tag = e'.tag := congrArg Prod.fst h.head

theorem attributes : e.attributes = e'.attributes := congrArg Prod.snd h.head

theorem attr? (name : String) : e.attr? name = e'.attr? name := by
  unfold Element.attr?
  rw [h.attributes]

theorem hasAttr (name : String) : e.hasAttr name = e'.hasAttr name := by
  unfold Element.hasAttr
  rw [h.attr?]

theorem textContent : e.textContent = e'.textContent := by
  rw [h.left.textContent_eq, h.right.textContent_eq, h.tree]

theorem outerHtml : e.outerHtml = e'.outerHtml := by
  unfold Element.outerHtml
  rw [h.tree]

theorem excerpt (limit : Nat) : e.excerpt limit = e'.excerpt limit := by
  unfold Element.excerpt
  rw [h.tree]

theorem openingTag : e.openingTag = e'.openingTag := by
  unfold Element.openingTag
  rw [h.tag, h.attributes]

theorem descendants : List.Forall₂ Alike e.descendants e'.descendants :=
  forall₂_alike h.left.of_mem_descendants h.right.of_mem_descendants <| by
    rw [h.left.map_tree_descendants, h.right.map_tree_descendants, h.tree]

theorem children : List.Forall₂ Alike e.children e'.children :=
  forall₂_alike h.left.of_mem_children h.right.of_mem_children <| by
    rw [h.left.map_tree_children, h.right.map_tree_children, h.tree]

end Alike

/-- Of elements that are alike one by one, a test of the tree picks elements that are. -/
theorem forall₂_alike_filter {p q : Element → Bool} (hpq : ∀ e e', Alike e e' → p e = q e')
    {xs ys : List Element} (h : List.Forall₂ Alike xs ys) :
    List.Forall₂ Alike (xs.filter p) (ys.filter q) :=
  List.rel_filter (fun e e' he => iff_of_eq (congrArg (· = true) (hpq e e' he))) h

theorem Alike.findAll {e e' : Element} (h : e.Alike e') (tags : List String) :
    List.Forall₂ Alike (e.findAll tags) (e'.findAll tags) :=
  forall₂_alike_filter (fun x x' hx => by rw [hx.tag]) h.descendants

/-- Of elements that are alike one by one, one passes a test of the tree if its partner does. -/
theorem any_of_forall₂_alike {p q : Element → Bool} (hpq : ∀ e e', Alike e e' → p e = q e')
    {xs ys : List Element} (h : List.Forall₂ Alike xs ys) : xs.any p = ys.any q := by
  induction h with
  | nil => rfl
  | cons he _ ih => rw [List.any_cons, List.any_cons, hpq _ _ he, ih]

theorem Alike.hasChild {e e' : Element} (h : e.Alike e') (tag : String) :
    e.hasChild tag = e'.hasChild tag :=
  any_of_forall₂_alike (fun x x' hx => by rw [hx.tag]) h.children

end Element

end PageAudit
