import PageAudit.Proofs.Document.Arena
import Mathlib.Data.List.Nodup
import Mathlib.Data.List.Perm.Subperm

/-!
# Walks and trees of a sound document

`preorder` goes through a work list and `tree` descends a number of levels; both have an equation by
the children of a node, without list and levels.

* `Sound.preorder_eq`: a node comes before the preorders of its children, in their order. The walk is
  not stopped early, since no node is met twice and so there are steps for all.
* `Sound.tree_element`, `Sound.tree_text`: the tree of a node is made of the trees of its children.
* `Sound.mem_preorder`, `Sound.nodup_preorder`: a preorder holds what is below, each node once.
-/

namespace PageAudit

namespace Document

/-- The nodes below a node, each before its children, to at most `depth` levels. -/
def orderTo (d : Document) : Nat → NodeId → List NodeId
  | 0, _ => []
  | depth + 1, id =>
    match d.nodes[id]? with
    | some n => id :: n.children.toList.flatMap (d.orderTo depth)
    | none => []

namespace Sound

variable {d : Document} (h : d.Sound)
include h

/-! ## Enough levels -/

/-- A level more makes no difference below the last node. -/
theorem orderTo_stable : ∀ {k l : Nat} {id : Nat}, d.nodes.size ≤ id + k → d.nodes.size ≤ id + l →
    d.orderTo k id = d.orderTo l id
  | 0, 0, _, _, _ => rfl
  | 0, l + 1, id, hk, _ => by simp [orderTo, Array.getElem?_eq_none (show d.nodes.size ≤ id from hk)]
  | k + 1, 0, id, _, hl => by simp [orderTo, Array.getElem?_eq_none (show d.nodes.size ≤ id from hl)]
  | k + 1, l + 1, id, hk, hl => by
    rw [orderTo, orderTo]
    cases hn : d.nodes[id]? with
    | none => rfl
    | some n =>
      refine congrArg (id :: ·) (List.flatMap_congr fun c hc => ?_)
      have := h.lt_child id c (by simpa [childrenOf, hn] using hc)
      exact orderTo_stable (by omega) (by omega)

theorem treeTo_stable : ∀ {k l : Nat} {id : Nat}, d.nodes.size ≤ id + k → d.nodes.size ≤ id + l →
    d.treeTo k id = d.treeTo l id
  | 0, 0, _, _, _ => rfl
  | 0, l + 1, id, hk, _ => by simp [treeTo, Array.getElem?_eq_none (show d.nodes.size ≤ id from hk)]
  | k + 1, 0, id, _, hl => by simp [treeTo, Array.getElem?_eq_none (show d.nodes.size ≤ id from hl)]
  | k + 1, l + 1, id, hk, hl => by
    rw [treeTo, treeTo]
    cases hn : d.nodes[id]? with
    | none => rfl
    | some n =>
      obtain ⟨kind, children⟩ := n
      cases kind with
      | text content => rfl
      | element tag attributes =>
        refine congrArg (Tree.element tag attributes) (List.map_congr_left fun c hc => ?_)
        have := h.lt_child id c (by simpa [childrenOf, hn] using hc)
        exact treeTo_stable (by omega) (by omega)

theorem orderTo_eq {id : Nat} (hid : id < d.nodes.size) : d.orderTo d.nodes.size id =
    id :: (d.childrenOf id).flatMap (d.orderTo d.nodes.size) := by
  obtain ⟨s, hs⟩ := Nat.exists_eq_succ_of_ne_zero (Nat.ne_zero_of_lt hid)
  obtain ⟨n, hn, hc⟩ := exists_node_of_lt hid
  conv_lhs => rw [hs, orderTo, hn]
  rw [hc]
  refine congrArg (id :: ·) (List.flatMap_congr fun c hm => ?_)
  have := h.lt_child id c (hc ▸ hm)
  exact h.orderTo_stable (by omega) (by omega)

/-- The tree of an element. -/
theorem tree_element {id : Nat} {tag : String} {attributes : List Attribute}
    (hk : d.kind? id = some (.element tag attributes)) :
    d.tree id = .element tag attributes ((d.childrenOf id).map d.tree) := by
  have hid : id < d.nodes.size := lt_size_iff.2 (by simp [hk])
  obtain ⟨s, hs⟩ := Nat.exists_eq_succ_of_ne_zero (Nat.ne_zero_of_lt hid)
  obtain ⟨children, hn, hc⟩ := exists_node_of_kind? hk
  unfold tree
  conv_lhs => rw [hs, treeTo, hn]
  rw [hc]
  refine congrArg (Tree.element tag attributes) (List.map_congr_left fun c hm => ?_)
  have := h.lt_child id c (hc ▸ hm)
  exact h.treeTo_stable (by omega) (by omega)

omit h in
theorem tree_text {id : NodeId} {content : String} (hk : d.kind? id = some (.text content)) :
    d.tree id = .text content := by
  have hid : id < d.nodes.size := lt_size_iff.2 (by simp [hk])
  obtain ⟨s, hs⟩ := Nat.exists_eq_succ_of_ne_zero (Nat.ne_zero_of_lt hid)
  obtain ⟨children, hn, -⟩ := exists_node_of_kind? hk
  unfold tree
  rw [hs, treeTo, hn]

/-! ## No node twice -/

theorem mem_orderTo {id : Nat} (hid : id < d.nodes.size) {x : NodeId} :
    x ∈ d.orderTo d.nodes.size id ↔ d.Above id x := by
  induction id using h.induction with
  | step id ih =>
    rw [h.orderTo_eq hid, List.mem_cons, List.mem_flatMap, Above,
      Relation.ReflTransGen.cases_head_iff, eq_comm (a := x)]
    refine or_congr_right (exists_congr fun c => and_congr_right fun hc => ?_)
    exact ih c hc (h.child_lt_size id c hc)

theorem nodup_orderTo {id : Nat} (hid : id < d.nodes.size) :
    (d.orderTo d.nodes.size id).Nodup := by
  induction id using h.induction with
  | step id ih =>
    have size := h.child_lt_size id
    rw [h.orderTo_eq hid, List.nodup_cons]
    constructor
    · intro hm
      obtain ⟨c, hc, hx⟩ := List.mem_flatMap.1 hm
      have := h.le_of_above ((h.mem_orderTo (size c hc)).1 hx)
      have := h.lt_child id c hc
      omega
    · refine List.nodup_flatMap.2 ⟨fun c hc => ih c hc (size c hc), ?_⟩
      refine (h.nodup id).imp_of_mem fun {b c} hb hc hne x hxb hxc => hne ?_
      exact h.eq_of_above hb hc ((h.mem_orderTo (size b hb)).1 hxb)
        ((h.mem_orderTo (size c hc)).1 hxc)

theorem length_orderTo_le {id : Nat} (hid : id < d.nodes.size) :
    (d.orderTo d.nodes.size id).length ≤ d.nodes.size := by
  have hsub : d.orderTo d.nodes.size id ⊆ List.range d.nodes.size := fun x hx =>
    List.mem_range.2 (h.lt_size_of_above ((h.mem_orderTo hid).1 hx) hid)
  simpa using (List.subperm_of_subset (h.nodup_orderTo hid) hsub).length_le

/-! ## The walk -/

/-- A walk with enough steps goes through the nodes on its work list one after the other. -/
theorem walk_eq : ∀ {steps : Nat} {pending : List NodeId}, (∀ id ∈ pending, id < d.nodes.size) →
    (pending.flatMap (d.orderTo d.nodes.size)).length ≤ steps →
    d.walk steps pending = pending.flatMap (d.orderTo d.nodes.size)
  | 0, _, _, hl => by rw [walk, List.eq_nil_of_length_eq_zero (Nat.le_zero.1 hl)]
  | _ + 1, [], _, _ => rfl
  | steps + 1, id :: pending, hp, hl => by
    have hid := hp id (by simp)
    obtain ⟨n, hn, hc⟩ := exists_node_of_lt hid
    rw [List.flatMap_cons, h.orderTo_eq hid] at hl ⊢
    rw [walk, hn, List.cons_append, ← List.flatMap_append, hc]
    refine congrArg (id :: ·) (walk_eq (fun x hx => ?_) ?_)
    · rcases List.mem_append.1 hx with hx | hx
      · exact h.child_lt_size id x (hc ▸ hx)
      · exact hp x (List.mem_cons_of_mem _ hx)
    · rw [hc] at hl
      simpa using hl

theorem preorder_eq_orderTo {id : Nat} (hid : id < d.nodes.size) :
    d.preorder id = d.orderTo d.nodes.size id := by
  have hl := h.length_orderTo_le hid
  rw [preorder, h.walk_eq (by simpa using hid) (by simpa using hl)]
  simp

/-- **A preorder by the children**: the node, then the preorders of its children. -/
theorem preorder_eq {id : Nat} (hid : id < d.nodes.size) :
    d.preorder id = id :: (d.childrenOf id).flatMap d.preorder := by
  rw [h.preorder_eq_orderTo hid, h.orderTo_eq hid]
  refine congrArg (id :: ·) (List.flatMap_congr fun c hc => ?_)
  exact (h.preorder_eq_orderTo (h.child_lt_size id c hc)).symm

theorem mem_preorder {id : Nat} (hid : id < d.nodes.size) {x : NodeId} :
    x ∈ d.preorder id ↔ d.Above id x := by
  rw [h.preorder_eq_orderTo hid, h.mem_orderTo hid]

theorem lt_size_of_mem_preorder {id x : Nat} (hid : id < d.nodes.size) (hx : x ∈ d.preorder id) :
    x < d.nodes.size :=
  h.lt_size_of_above ((h.mem_preorder hid).1 hx) hid

theorem nodup_preorder {id : Nat} (hid : id < d.nodes.size) : (d.preorder id).Nodup := by
  rw [h.preorder_eq_orderTo hid]
  exact h.nodup_orderTo hid

end Sound

end Document

end PageAudit
