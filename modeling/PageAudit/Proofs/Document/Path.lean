import PageAudit.Proofs.Document.Traversal
import PageAudit.Document.Markup

/-!
# Paths

The way down from a node to a node below it (`Document.Path`). A path cuts what is seen of the node at
its top in three: what stands before the share of the node at its end, that share, and what stands
after it.

* `Sound.preorder_path`: so for the nodes in document order.
* `Sound.markup_path`: so for the markup, if it shows what is inside the nodes on the way.
* `Path.congr`, `before_congr` and the like: two documents that agree beside a path (`Frame.Same`)
  have the same before and after it.
-/

namespace PageAudit

/-- A node on the way down, with its children before and after the one that comes next. -/
structure Frame where
  id : NodeId
  earlier : List NodeId
  later : List NodeId

namespace Document

open Markup

variable {d : Document}

/-- A path leads down from a node to a node. -/
inductive Path (d : Document) : NodeId → List Frame → NodeId → Prop
  | here (p : NodeId) : Path d p [] p
  | down {a c p : NodeId} {earlier later : List NodeId} {path : List Frame} :
      d.childrenOf a = earlier ++ c :: later → Path d c path p →
        Path d a (⟨a, earlier, later⟩ :: path) p

/-- The nodes before the end of a path, in document order. -/
def before (d : Document) : List Frame → List NodeId
  | [] => []
  | f :: path => f.id :: f.earlier.flatMap d.preorder ++ d.before path

/-- The nodes after the subtree at the end of a path, in document order. -/
def after (d : Document) : List Frame → List NodeId
  | [] => []
  | f :: path => d.after path ++ f.later.flatMap d.preorder

/-- The opening tag of a node. -/
def opening (d : Document) (id : NodeId) : List Char :=
  openingTag (⟨d, id⟩ : Element).tag (⟨d, id⟩ : Element).attributes

/-- The closing tag of a node. -/
def closing (d : Document) (id : NodeId) : List Char :=
  closingTag (⟨d, id⟩ : Element).tag

/-- The markup of some nodes in a row. -/
def markupOf (d : Document) (ids : List NodeId) : List Char :=
  Tree.markupAll (ids.map d.tree)

/-- The markup before the end of a path. -/
def markupBefore (d : Document) : List Frame → List Char
  | [] => []
  | f :: path => d.opening f.id ++ d.markupOf f.earlier ++ d.markupBefore path

/-- The markup after the end of a path. -/
def markupAfter (d : Document) : List Frame → List Char
  | [] => []
  | f :: path => d.markupAfter path ++ d.markupOf f.later ++ d.closing f.id

/-- The node is a void element: its markup does not show what is inside. -/
def Hides (d : Document) (id : NodeId) : Prop :=
  isVoid (⟨d, id⟩ : Element).tag = true

theorem markupOf_append (d : Document) (xs ys : List NodeId) :
    d.markupOf (xs ++ ys) = d.markupOf xs ++ d.markupOf ys := by
  induction xs with
  | nil => rfl
  | cons x xs ih =>
    simp only [markupOf, List.cons_append, List.map_cons, Tree.markupAll] at ih ⊢
    rw [ih, List.append_assoc]

theorem markupOf_cons (d : Document) (x : NodeId) (xs : List NodeId) :
    d.markupOf (x :: xs) = (d.tree x).markup ++ d.markupOf xs := by
  rw [markupOf, List.map_cons, Tree.markupAll, markupOf]

theorem exists_path {a p : NodeId} (ha : d.Above a p) : ∃ path, d.Path a path p := by
  induction ha using Relation.ReflTransGen.head_induction_on with
  | refl => exact ⟨[], .here p⟩
  | head hc _ ih =>
    obtain ⟨path, hp⟩ := ih
    obtain ⟨earlier, later, he⟩ := List.append_of_mem hc
    exact ⟨_, .down he hp⟩

theorem Path.above {a p : NodeId} {path : List Frame} (hp : d.Path a path p) : d.Above a p := by
  induction hp with
  | here => exact .refl
  | down hc _ ih => exact .head (by simp [hc]) ih

namespace Sound

variable (h : d.Sound)
include h

theorem isElement_of_mem {a c : NodeId} (hc : c ∈ d.childrenOf a) : d.isElement a = true := by
  by_contra ha
  rw [h.leaf a (by simpa using ha)] at hc
  cases hc

theorem markup_of_hides {id : NodeId} (hid : d.isElement id = true) (hv : d.Hides id) :
    (d.tree id).markup = d.opening id := by
  obtain ⟨tag, attributes, hk⟩ := isElement_iff.1 hid
  have hh := head_eq d id
  rw [hk] at hh
  have htag : isVoid tag = true := by simpa [Hides, Element.tag, hh] using hv
  simp [h.tree_element hk, Tree.markup, htag, opening, Element.tag, Element.attributes, hh]

theorem markup_of_not_hides {id : NodeId} (hid : d.isElement id = true) (hv : ¬ d.Hides id) :
    (d.tree id).markup = d.opening id ++ d.markupOf (d.childrenOf id) ++ d.closing id := by
  obtain ⟨tag, attributes, hk⟩ := isElement_iff.1 hid
  have hh := head_eq d id
  rw [hk] at hh
  have htag : isVoid tag = false := by simpa [Hides, Element.tag, hh] using hv
  simp [h.tree_element hk, Tree.markup, htag, markupOf, opening, closing, Element.tag,
    Element.attributes, hh]

/-! ## What stands before and after -/

/-- **A path cuts a preorder** into what is before its end, what is below it and what is after. -/
theorem preorder_path {a p : NodeId} {path : List Frame} (hp : d.Path a path p)
    (ha : a < d.nodes.size) :
    d.preorder a = d.before path ++ d.preorder p ++ d.after path := by
  induction hp with
  | here => simp [before, after]
  | @down a c p earlier later path hc _ ih =>
    have hcs : c < d.nodes.size := h.child_lt_size a c (by simp [hc])
    rw [h.preorder_eq ha, hc, List.flatMap_append, List.flatMap_cons, ih hcs]
    simp [before, after]

/-- **A path cuts markup** that shows what is inside the nodes on the way. -/
theorem markup_path {a p : NodeId} {path : List Frame} (hp : d.Path a path p)
    (hv : ∀ f ∈ path, ¬ d.Hides f.id) :
    (d.tree a).markup = d.markupBefore path ++ (d.tree p).markup ++ d.markupAfter path := by
  induction hp with
  | here => simp [markupBefore, markupAfter]
  | @down a c p earlier later path hc _ ih =>
    simp only [List.forall_mem_cons] at hv
    have hae : d.isElement a = true := h.isElement_of_mem (c := c) (by simp [hc])
    rw [h.markup_of_not_hides hae hv.1, hc, markupOf_append, markupOf_cons, ih hv.2]
    simp [markupBefore, markupAfter]

/-- A node beside a path is not above its end. -/
theorem not_above_of_beside {a c p s : NodeId} {earlier later : List NodeId}
    (hc : d.childrenOf a = earlier ++ c :: later) (hcp : d.Above c p)
    (hs : s ∈ earlier ∨ s ∈ later) : ¬ d.Above s p := by
  intro hsp
  have hsa : s ∈ d.childrenOf a := by
    rw [hc, List.mem_append, List.mem_cons]
    exact hs.imp_right .inr
  have hsc : s = c := h.eq_of_above hsa (by simp [hc]) hsp hcp
  have hnd := h.nodup a
  rw [hc, hsc.symm, List.nodup_middle, List.nodup_cons, List.mem_append] at hnd
  exact hnd.1 hs

end Sound

/-! ## Documents that agree beside a path -/

/-- `d'` has the node of the frame, and what is beside the path below it, as `d` has them. -/
structure AgreeAt (d d' : Document) (f : Frame) : Prop where
  kind : d'.kind? f.id = d.kind? f.id
  children : d'.childrenOf f.id = d.childrenOf f.id
  preorder : ∀ s, s ∈ f.earlier ∨ s ∈ f.later → d'.preorder s = d.preorder s
  tree : ∀ s, s ∈ f.earlier ∨ s ∈ f.later → d'.tree s = d.tree s

section
variable {d' : Document}

theorem head_congr {id : NodeId} (hk : d'.kind? id = d.kind? id) :
    (⟨d', id⟩ : Element).head = (⟨d, id⟩ : Element).head := by
  rw [head_eq, head_eq, hk]

theorem opening_congr {id : NodeId} (hk : d'.kind? id = d.kind? id) :
    d'.opening id = d.opening id := by
  simp [opening, Element.tag, Element.attributes, head_congr hk]

theorem closing_congr {id : NodeId} (hk : d'.kind? id = d.kind? id) :
    d'.closing id = d.closing id := by
  simp [closing, Element.tag, head_congr hk]

theorem hides_congr {id : NodeId} (hk : d'.kind? id = d.kind? id) : d'.Hides id ↔ d.Hides id := by
  simp [Hides, Element.tag, head_congr hk]

theorem markupOf_congr {ids : List NodeId} (ht : ∀ s ∈ ids, d'.tree s = d.tree s) :
    d'.markupOf ids = d.markupOf ids := by
  rw [markupOf, markupOf, List.map_congr_left ht]

theorem Path.congr {a p : NodeId} {path : List Frame} (hp : d.Path a path p)
    (hs : ∀ f ∈ path, d.AgreeAt d' f) : d'.Path a path p := by
  induction hp with
  | here p => exact .here p
  | down hc _ ih =>
    obtain ⟨hf, hrest⟩ := List.forall_mem_cons.1 hs
    exact .down (hf.children.trans hc) (ih hrest)

theorem before_congr : ∀ {path : List Frame}, (∀ f ∈ path, d.AgreeAt d' f) →
    d'.before path = d.before path
  | [], _ => rfl
  | f :: path, hs => by
    obtain ⟨hf, hrest⟩ := List.forall_mem_cons.1 hs
    rw [before, before, before_congr hrest,
      List.flatMap_congr fun s hm => hf.preorder s (.inl hm)]

theorem after_congr : ∀ {path : List Frame}, (∀ f ∈ path, d.AgreeAt d' f) →
    d'.after path = d.after path
  | [], _ => rfl
  | f :: path, hs => by
    obtain ⟨hf, hrest⟩ := List.forall_mem_cons.1 hs
    rw [after, after, after_congr hrest, List.flatMap_congr fun s hm => hf.preorder s (.inr hm)]

theorem markupBefore_congr : ∀ {path : List Frame}, (∀ f ∈ path, d.AgreeAt d' f) →
    d'.markupBefore path = d.markupBefore path
  | [], _ => rfl
  | f :: path, hs => by
    obtain ⟨hf, hrest⟩ := List.forall_mem_cons.1 hs
    rw [markupBefore, markupBefore, markupBefore_congr hrest, opening_congr hf.kind,
      markupOf_congr fun s hm => hf.tree s (.inl hm)]

theorem markupAfter_congr : ∀ {path : List Frame}, (∀ f ∈ path, d.AgreeAt d' f) →
    d'.markupAfter path = d.markupAfter path
  | [], _ => rfl
  | f :: path, hs => by
    obtain ⟨hf, hrest⟩ := List.forall_mem_cons.1 hs
    rw [markupAfter, markupAfter, markupAfter_congr hrest, closing_congr hf.kind,
      markupOf_congr fun s hm => hf.tree s (.inr hm)]

/-- Markup does not tell apart what a void element on the way hides. -/
theorem Sound.markup_congr (h : d.Sound) (h' : d'.Sound) {a p : NodeId} {path : List Frame}
    (hp : d.Path a path p) (hs : ∀ f ∈ path, d.AgreeAt d' f)
    (hend : (∃ f ∈ path, d.Hides f.id) ∨ (d'.tree p).markup = (d.tree p).markup) :
    (d'.tree a).markup = (d.tree a).markup := by
  induction hp with
  | here p => exact hend.resolve_left (by simp)
  | @down a c p earlier later path hc _ ih =>
    obtain ⟨hf, hrest⟩ := List.forall_mem_cons.1 hs
    have hc' : d'.childrenOf a = earlier ++ c :: later := hf.children.trans hc
    have hae : d.isElement a = true := h.isElement_of_mem (c := c) (by simp [hc])
    have hae' : d'.isElement a = true := by rw [isElement_congr hf.kind, hae]
    by_cases hv : d.Hides a
    · rw [h.markup_of_hides hae hv, h'.markup_of_hides hae' ((hides_congr hf.kind).2 hv),
        opening_congr hf.kind]
    · have hv' : ¬ d'.Hides a := fun hv' => hv ((hides_congr hf.kind).1 hv')
      have hcm : (d'.tree c).markup = (d.tree c).markup := by
        refine ih hrest (hend.imp_left fun ⟨f, hm, hfv⟩ => ?_)
        rcases List.mem_cons.1 hm with rfl | hm
        · exact absurd hfv hv
        · exact ⟨f, hm, hfv⟩
      rw [h.markup_of_not_hides hae hv, h'.markup_of_not_hides hae' hv', hc, hc']
      simp only [markupOf_append, markupOf_cons]
      rw [hcm, opening_congr hf.kind, closing_congr hf.kind,
        markupOf_congr fun s hm => hf.tree s (.inl hm),
        markupOf_congr fun s hm => hf.tree s (.inr hm)]

end

end Document

end PageAudit
