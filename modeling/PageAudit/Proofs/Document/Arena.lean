import PageAudit.Document.Build
import PageAudit.Document.Tree
import Mathlib.Logic.Relation

/-!
# The store of a document

What a document keeps to, however it is built (`Document.Sound`): a node has a greater number than the
node that lists it, one node lists it at most, and only elements list nodes. So the nodes below a node
form a tree.

* `Sound.induction`: what holds of a node if it holds of its children holds of every node.
* `Sound.eq_of_above`: the subtrees of two children of a node have nothing in common.
* `Sound.createRoot`, `Sound.append`: soundness is kept by every way to add a node, so it holds after
  any steps (`Build.ok_run`).
-/

namespace PageAudit

namespace Document

/-- What a node is, if it is in the document. -/
def kind? (d : Document) (id : NodeId) : Option NodeKind :=
  d.nodes[id]?.map (·.kind)

/-- The nodes that a node lists. -/
def childrenOf (d : Document) (id : NodeId) : List NodeId :=
  (d.nodes[id]?.map (·.children.toList)).getD []

theorem isElement_iff {d : Document} {id : NodeId} :
    d.isElement id = true ↔ ∃ tag attributes, d.kind? id = some (.element tag attributes) := by
  unfold isElement kind?
  cases d.nodes[id]? with
  | none => simp
  | some n => cases hk : n.kind <;> simp [Node.isElement, hk]

theorem isElement_of_text {d : Document} {id : NodeId} {content : String}
    (hk : d.kind? id = some (.text content)) : d.isElement id = false := by
  rw [← Bool.not_eq_true, isElement_iff, hk]
  simp

theorem isElement_congr {d d' : Document} {id : NodeId} (h : d'.kind? id = d.kind? id) :
    d'.isElement id = d.isElement id := by
  rw [Bool.eq_iff_iff, isElement_iff, isElement_iff, h]

theorem lt_size_iff {d : Document} {id : NodeId} : id < d.nodes.size ↔ (d.kind? id).isSome := by
  simp [kind?]

theorem exists_kind_of_lt {d : Document} {id : Nat} (h : id < d.nodes.size) :
    ∃ kind, d.kind? id = some kind :=
  Option.isSome_iff_exists.1 (lt_size_iff.1 h)

theorem lt_size_of_isElement {d : Document} {id : NodeId} (h : d.isElement id = true) :
    id < d.nodes.size := by
  obtain ⟨tag, attributes, hk⟩ := isElement_iff.1 h
  exact lt_size_iff.2 (by simp [hk])

theorem textAt_eq (d : Document) (id : NodeId) :
    d.textAt id = match d.kind? id with
      | some (.text content) => content
      | _ => "" := by
  unfold textAt kind?
  cases d.nodes[id]? with
  | none => rfl
  | some n => obtain ⟨kind, children⟩ := n; cases kind <;> rfl

theorem head_eq (d : Document) (id : NodeId) :
    (⟨d, id⟩ : Element).head = match d.kind? id with
      | some (.element tag attributes) => (tag, attributes)
      | _ => ("", []) := by
  unfold Element.head kind?
  cases d.nodes[id]? with
  | none => rfl
  | some n => obtain ⟨kind, children⟩ := n; cases kind <;> rfl

theorem exists_node_of_lt {d : Document} {id : Nat} (hid : id < d.nodes.size) :
    ∃ n, d.nodes[id]? = some n ∧ d.childrenOf id = n.children.toList :=
  have hn := Array.getElem?_eq_getElem hid
  ⟨_, hn, by simp [childrenOf, hn]⟩

theorem exists_node_of_kind? {d : Document} {id : NodeId} {kind : NodeKind}
    (hk : d.kind? id = some kind) :
    ∃ children, d.nodes[id]? = some ⟨kind, children⟩ ∧ d.childrenOf id = children.toList := by
  obtain ⟨n, hn, rfl⟩ := Option.map_eq_some_iff.1 hk
  exact ⟨n.children, hn, by simp [childrenOf, hn]⟩

theorem childrenOf_eq_nil {d : Document} {id : NodeId} (h : d.nodes.size ≤ id) :
    d.childrenOf id = [] := by
  simp [childrenOf, Array.getElem?_eq_none h]

/-- `a` is `x` or lists a node that is above `x`. -/
def Above (d : Document) : NodeId → NodeId → Prop :=
  Relation.ReflTransGen fun a c => c ∈ d.childrenOf a

/-- What every document keeps to (module doc). -/
structure Sound (d : Document) : Prop where
  lt_child : ∀ a c : Nat, c ∈ d.childrenOf a → a < c
  child_lt_size : ∀ a c : Nat, c ∈ d.childrenOf a → c < d.nodes.size
  nodup : ∀ a, (d.childrenOf a).Nodup
  parent_unique : ∀ a b c, c ∈ d.childrenOf a → c ∈ d.childrenOf b → a = b
  leaf : ∀ a, d.isElement a = false → d.childrenOf a = []
  root : ∀ r, d.root? = some r → d.isElement r = true

namespace Sound

variable {d : Document} (h : d.Sound)
include h

theorem childrenOf_of_text {id : NodeId} {content : String}
    (hk : d.kind? id = some (.text content)) : d.childrenOf id = [] :=
  h.leaf id (isElement_of_text hk)

/-- Induction from the children of a node to the node. -/
theorem induction {P : NodeId → Prop} (step : ∀ id, (∀ c ∈ d.childrenOf id, P c) → P id)
    (id : NodeId) : P id := by
  have below : ∀ k id, d.nodes.size ≤ id + k → P id := by
    intro k
    induction k with
    | zero =>
      intro id hid
      refine step id fun c hc => ?_
      rw [childrenOf_eq_nil (show d.nodes.size ≤ id from hid)] at hc
      cases hc
    | succ k ih =>
      intro id hid
      refine step id fun c hc => ih c ?_
      have := h.lt_child id c hc
      omega
  exact below d.nodes.size id (by omega)

theorem le_of_above {a x : Nat} (ha : d.Above a x) : a ≤ x := by
  induction ha with
  | refl => exact Nat.le_refl _
  | tail _ hc ih => exact Nat.le_of_lt (Nat.lt_of_le_of_lt ih (h.lt_child _ _ hc))

/-- The children of a node are not above it. -/
theorem not_above_of_child {a c : NodeId} (hc : c ∈ d.childrenOf a) : ¬ d.Above c a := fun hca =>
  Nat.not_le_of_lt (h.lt_child a c hc) (h.le_of_above hca)

theorem lt_size_of_above {a x : NodeId} (ha : d.Above a x) (hs : a < d.nodes.size) :
    x < d.nodes.size := by
  induction ha with
  | refl => exact hs
  | tail _ hc _ => exact h.child_lt_size _ _ hc

/-- Of two nodes above the same node one is above the other. -/
theorem above_total {a b x : NodeId} (ha : d.Above a x) (hb : d.Above b x) :
    d.Above a b ∨ d.Above b a := by
  have unique : Relator.RightUnique (Function.swap fun a c => c ∈ d.childrenOf a) :=
    fun c a b hca hcb => h.parent_unique a b c hca hcb
  rcases Relation.ReflTransGen.total_of_right_unique unique (Relation.reflTransGen_swap.2 ha)
    (Relation.reflTransGen_swap.2 hb) with hab | hba
  · exact .inr (Relation.reflTransGen_swap.1 hab)
  · exact .inl (Relation.reflTransGen_swap.1 hba)

/-- A child of a node is above no other child of it. -/
theorem eq_of_child_above {a b c : NodeId} (hb : b ∈ d.childrenOf a) (hc : c ∈ d.childrenOf a)
    (hbc : d.Above b c) : b = c := by
  rcases Relation.ReflTransGen.cases_tail hbc with rfl | ⟨a', hba', hc'⟩
  · rfl
  · have hba : d.Above b a := h.parent_unique a a' c hc hc' ▸ hba'
    have := h.lt_child a b hb
    have := h.le_of_above hba
    omega

/-- A node is below one child of a node at most. -/
theorem eq_of_above {a b c x : NodeId} (hb : b ∈ d.childrenOf a) (hc : c ∈ d.childrenOf a)
    (hbx : d.Above b x) (hcx : d.Above c x) : b = c := by
  rcases h.above_total hbx hcx with hbc | hcb
  · exact h.eq_of_child_above hb hc hbc
  · exact (h.eq_of_child_above hc hb hcb).symm

end Sound

/-! ## Adding a node -/

/-- Adds a node as the last child of `p`. -/
def append (d : Document) (p : NodeId) (n : Node) : Document :=
  (d.addNode n).link p d.nextId

theorem appendElement_eq (d : Document) (p : NodeId) (tag : String)
    (attributes : List Attribute) :
    d.appendElement p tag attributes = d.append p (.element tag attributes) := rfl

theorem appendText_eq (d : Document) (p : NodeId) (content : String) :
    d.appendText p content = d.append p (.text content) := rfl

section
variable (d : Document) (n : Node)

@[simp] theorem size_addNode : (d.addNode n).nodes.size = d.nodes.size + 1 := by
  simp [addNode]

@[simp] theorem root?_addNode : (d.addNode n).root? = d.root? := rfl

theorem kind?_addNode (id : NodeId) :
    (d.addNode n).kind? id = if id = d.nextId then some n.kind else d.kind? id := by
  by_cases hid : id = d.nextId
  · simp [kind?, addNode, hid, nextId]
  · simp [kind?, addNode, Array.getElem?_push, if_neg hid, show id ≠ d.nodes.size from hid]

theorem childrenOf_addNode (hn : n.children = #[]) (id : NodeId) :
    (d.addNode n).childrenOf id = d.childrenOf id := by
  by_cases hid : id = d.nodes.size
  · subst hid
    simp [childrenOf, addNode, hn]
  · simp [childrenOf, addNode, Array.getElem?_push, hid]

@[simp] theorem size_link (p c : NodeId) : (d.link p c).nodes.size = d.nodes.size := by
  simp [link]

@[simp] theorem root?_link (p c : NodeId) : (d.link p c).root? = d.root? := rfl

@[simp] theorem kind?_link (p c id : NodeId) : (d.link p c).kind? id = d.kind? id := by
  unfold kind? link
  rw [Array.getElem?_modify]
  split
  · simp [Function.comp_def]
  · rfl

theorem childrenOf_link {p : NodeId} (hp : p < d.nodes.size) (c id : NodeId) :
    (d.link p c).childrenOf id =
      if id = p then d.childrenOf p ++ [c] else d.childrenOf id := by
  unfold childrenOf link
  rw [Array.getElem?_modify]
  by_cases hid : id = p
  · subst hid
    simp [hp]
  · simp [hid, Ne.symm hid]

end

section
variable {d : Document} {p : NodeId} (hp : p < d.nodes.size) {n : Node} (hn : n.children = #[])

@[simp] theorem size_append : (d.append p n).nodes.size = d.nodes.size + 1 := by
  simp [append]

@[simp] theorem root?_append : (d.append p n).root? = d.root? := rfl

theorem kind?_append (id : NodeId) :
    (d.append p n).kind? id = if id = d.nextId then some n.kind else d.kind? id := by
  rw [append, kind?_link, kind?_addNode]

theorem kind?_append_of_lt {id : NodeId} (hid : id < d.nodes.size) :
    (d.append p n).kind? id = d.kind? id := by
  rw [kind?_append, if_neg (show id ≠ d.nextId from Nat.ne_of_lt hid)]

include hp hn

theorem childrenOf_append (id : NodeId) : (d.append p n).childrenOf id =
    if id = p then d.childrenOf p ++ [d.nextId] else d.childrenOf id := by
  have hp' : p < (d.addNode n).nodes.size := by
    rw [size_addNode]
    exact Nat.lt_succ_of_lt hp
  rw [append, childrenOf_link _ hp', childrenOf_addNode _ _ hn, childrenOf_addNode _ _ hn]

theorem mem_childrenOf_append {a c : NodeId} : c ∈ (d.append p n).childrenOf a ↔
    c ∈ d.childrenOf a ∨ a = p ∧ c = d.nextId := by
  rw [childrenOf_append hp hn]
  by_cases ha : a = p <;> simp [ha]

end

/-! ## Soundness is kept -/

theorem sound_empty : empty.Sound where
  lt_child := by simp [childrenOf, empty]
  child_lt_size := by simp [childrenOf, empty]
  nodup := by simp [childrenOf, empty]
  parent_unique := by simp [childrenOf, empty]
  leaf := by simp [childrenOf, empty]
  root := by simp [empty]

theorem isElement_append {d : Document} (p : NodeId) (n : Node) {id : NodeId}
    (h : d.isElement id = true) : (d.append p n).isElement id = true := by
  rw [isElement_congr (kind?_append_of_lt (lt_size_of_isElement h)), h]

theorem Sound.append {d : Document} (h : d.Sound) {p : NodeId} (hp : d.isElement p = true)
    {n : Node} (hn : n.children = #[]) : (d.append p n).Sound := by
  have hs := lt_size_of_isElement hp
  have fresh : ∀ {a c}, c ∈ d.childrenOf a → c ≠ d.nextId := fun hc =>
    Nat.ne_of_lt (h.child_lt_size _ _ hc)
  refine ⟨fun a c hc => ?_, fun a c hc => ?_, fun a => ?_, fun a b c ha hb => ?_, fun a ha => ?_,
    fun r hr => isElement_append p n (h.root r hr)⟩
  · rcases (mem_childrenOf_append hs hn).1 hc with hc | ⟨rfl, rfl⟩
    · exact h.lt_child a c hc
    · exact hs
  · rw [size_append]
    rcases (mem_childrenOf_append hs hn).1 hc with hc | ⟨-, rfl⟩
    · exact Nat.lt_succ_of_lt (h.child_lt_size a c hc)
    · exact Nat.lt_succ_self _
  · rw [childrenOf_append hs hn]
    split
    · refine List.nodup_append.2 ⟨h.nodup p, by simp, fun x hx y hy => ?_⟩
      rw [List.mem_singleton.1 hy]
      exact fresh hx
    · exact h.nodup a
  · rcases (mem_childrenOf_append hs hn).1 ha with ha | ⟨hap, hac⟩ <;>
      rcases (mem_childrenOf_append hs hn).1 hb with hb | ⟨hbp, hbc⟩
    · exact h.parent_unique a b c ha hb
    · exact absurd hbc (fresh ha)
    · exact absurd hac (fresh hb)
    · rw [hap, hbp]
  · rw [childrenOf_append hs hn]
    by_cases hap : a = p
    · rw [hap, isElement_append p n hp] at ha
      cases ha
    · rw [if_neg hap]
      by_cases hae : d.isElement a = true
      · rw [isElement_append p n hae] at ha
        cases ha
      · exact h.leaf a (by simpa using hae)

theorem childrenOf_createRoot (d : Document) (tag : String) (attributes : List Attribute)
    (id : NodeId) : (d.createRoot tag attributes).childrenOf id = d.childrenOf id :=
  childrenOf_addNode d (.element tag attributes) rfl id

theorem kind?_createRoot (d : Document) (tag : String) (attributes : List Attribute)
    (id : NodeId) : (d.createRoot tag attributes).kind? id =
      if id = d.nextId then some (Node.element tag attributes).kind else d.kind? id :=
  kind?_addNode d (.element tag attributes) id

theorem isElement_createRoot {d : Document} (tag : String) (attributes : List Attribute)
    {id : NodeId} (h : d.isElement id = true) : (d.createRoot tag attributes).isElement id = true := by
  have hid := lt_size_of_isElement h
  rw [isElement_congr (d := d), h]
  rw [kind?_createRoot, if_neg (show id ≠ d.nextId from Nat.ne_of_lt hid)]

theorem isElement_nextId_createRoot (d : Document) (tag : String) (attributes : List Attribute) :
    (d.createRoot tag attributes).isElement d.nextId = true := by
  rw [isElement_iff, kind?_createRoot, if_pos rfl]
  exact ⟨_, _, rfl⟩

theorem Sound.createRoot {d : Document} (h : d.Sound) (tag : String)
    (attributes : List Attribute) : (d.createRoot tag attributes).Sound := by
  have hc := childrenOf_createRoot d tag attributes
  refine ⟨fun a c h' => ?_, fun a c h' => ?_, fun a => ?_, fun a b c ha hb => ?_, fun a ha => ?_,
    fun r hr => ?_⟩
  · exact h.lt_child a c (hc a ▸ h')
  · have := h.child_lt_size a c (hc a ▸ h')
    exact Nat.lt_of_lt_of_le this (by simp [Document.createRoot])
  · exact hc a ▸ h.nodup a
  · exact h.parent_unique a b c (hc a ▸ ha) (hc b ▸ hb)
  · rw [hc]
    by_cases hae : d.isElement a = true
    · rw [isElement_createRoot tag attributes hae] at ha
      cases ha
    · exact h.leaf a (by simpa using hae)
  · cases hr
    exact isElement_nextId_createRoot d tag attributes

end Document

/-! ## Runs -/

namespace Build

open Document

/-- The document is sound and every handle names an element of it. -/
structure Ok (b : Build) : Prop where
  sound : b.document.Sound
  handles : ∀ id ∈ b.handles, b.document.isElement id = true

theorem Ok.step {b : Build} (h : b.Ok) (s : BuildStep) : (b.step s).Ok := by
  have isElement_new : ∀ (p : NodeId) (tag : String) (attributes : List Attribute),
      (b.document.appendElement p tag attributes).isElement b.document.nextId = true := by
    intro p tag attributes
    rw [appendElement_eq, isElement_iff, kind?_append, if_pos rfl]
    exact ⟨_, _, rfl⟩
  cases s with
  | root tag attributes =>
    refine ⟨h.sound.createRoot tag attributes, fun id hid => ?_⟩
    rcases List.mem_append.1 hid with hid | hid
    · exact isElement_createRoot tag attributes (h.handles id hid)
    · rw [List.mem_singleton.1 hid]
      exact isElement_nextId_createRoot b.document tag attributes
  | element parent tag attributes =>
    rw [Build.step]
    split
    case h_2 => exact h
    case h_1 p hp =>
      have hpe := h.handles p (List.mem_of_getElem? hp)
      refine ⟨h.sound.append hpe rfl, fun id hid => ?_⟩
      rcases List.mem_append.1 hid with hid | hid
      · exact isElement_append p _ (h.handles id hid)
      · rw [List.mem_singleton.1 hid]
        exact isElement_new p tag attributes
  | text parent content =>
    rw [Build.step]
    split
    case h_2 => exact h
    case h_1 p hp =>
      have hpe := h.handles p (List.mem_of_getElem? hp)
      exact ⟨h.sound.append hpe rfl, fun id hid => isElement_append p _ (h.handles id hid)⟩

/-- **Every run ends in a sound document** whose handles name elements. -/
theorem ok_run (steps : List BuildStep) : (run steps).Ok := by
  have keeps : ∀ (steps : List BuildStep) (b : Build), b.Ok → (steps.foldl step b).Ok := by
    intro steps
    induction steps with
    | nil => exact fun b h => h
    | cons s steps ih => exact fun b h => ih (b.step s) (h.step s)
  exact keeps steps {} ⟨sound_empty, by simp⟩

end Build

end PageAudit
