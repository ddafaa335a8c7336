import PageAudit.Document.Element

/-!
# The tree below a node

The nested view of a document: an element with its attributes and children, or a text. It forgets the
numbers of the nodes and all that is not below the chosen node.
-/

namespace PageAudit

inductive Tree where
  | element (tag : String) (attributes : List Attribute) (children : List Tree)
  | text (content : String)
  deriving Repr, Inhabited

namespace Tree

mutual

/-- Equality of trees, with `decEqList` for the children so that the recursion is structural. -/
def decEq : (t u : Tree) → Decidable (t = u)
  | .text s, .text t =>
    if h : s = t then .isTrue (by rw [h]) else .isFalse (by simp [h])
  | .text _, .element _ _ _ => .isFalse (by simp)
  | .element _ _ _, .text _ => .isFalse (by simp)
  | .element tag attributes ts, .element tag' attributes' us =>
    if h : tag = tag' ∧ attributes = attributes' then
      match decEqList ts us with
      | .isTrue hc => .isTrue (by rw [h.1, h.2, hc])
      | .isFalse hc => .isFalse (by simp [hc])
    else .isFalse (by
      intro heq
      injection heq with htag hattributes
      exact h ⟨htag, hattributes⟩)

def decEqList : (ts us : List Tree) → Decidable (ts = us)
  | [], [] => .isTrue rfl
  | [], _ :: _ => .isFalse (by simp)
  | _ :: _, [] => .isFalse (by simp)
  | t :: ts, u :: us =>
    match decEq t u with
    | .isTrue ht =>
      match decEqList ts us with
      | .isTrue hts => .isTrue (by rw [ht, hts])
      | .isFalse hts => .isFalse (by simp [hts])
    | .isFalse ht => .isFalse (by simp [ht])

end

instance : DecidableEq Tree :=
  decEq

end Tree

namespace Document

/-- The tree below a node, to at most `depth` levels. -/
def treeTo (d : Document) : Nat → NodeId → Tree
  | 0, _ => .text ""
  | depth + 1, id =>
    match d.nodes[id]? with
    | some ⟨.element tag attributes, children⟩ =>
      .element tag attributes (children.toList.map (d.treeTo depth))
    | some ⟨.text content, _⟩ => .text content
    | none => .text ""

/-- The tree below a node. No path in a document is longer than its number of nodes. -/
def tree (d : Document) (id : NodeId) : Tree :=
  d.treeTo d.nodes.size id

def rootTree? (d : Document) : Option Tree :=
  d.root?.map d.tree

end Document

def Element.tree (e : Element) : Tree :=
  e.document.tree e.id

end PageAudit
