import PageAudit.Document.Basic

/-!
# Parsed HTML

The tree that reading HTML yields, and its document. Comments and other nodes without text are left
out of the document, and the attributes of an element are put in the order of their names.

A document is filled from a list of pending elements. The first of them gets all its children at once,
and what is below the children waits: so nodes are not numbered in document order.
-/

namespace PageAudit

namespace Html

inductive Node where
  | element (tag : String) (attributes : List Attribute) (children : List Node)
  | text (content : String)
  /-- A comment, a doctype or an instruction. -/
  | other
  deriving Inhabited

/-- What reads the text of a page. The root of the page is what it yields. -/
abbrev Parser := String → Node

/-- Whatever the text, there is a root: what is read is an element. -/
def Parser.YieldsRoot (parse : Parser) : Prop :=
  ∀ s, ∃ tag attributes children, parse s = .element tag attributes children

namespace Node

mutual

/-- The number of nodes of a parsed tree. -/
def size : Node → Nat
  | .element _ _ children => sizeAll children + 1
  | _ => 1

def sizeAll : List Node → Nat
  | [] => 0
  | n :: ns => size n + sizeAll ns

end

end Node

end Html

namespace Attribute

/-- Attributes in the order of their names. -/
def sorted (attributes : List Attribute) : List Attribute :=
  attributes.mergeSort fun a b => decide (a.name ≤ b.name)

end Attribute

namespace Document

/-- An element of a document, and the parsed nodes that are still to be put below it. -/
structure Pending where
  parent : NodeId
  children : List Html.Node

namespace Pending

/-- The number of elements that are pending and of the nodes still to be put below them. -/
def total : List Pending → Nat
  | [] => 0
  | p :: pending => Html.Node.sizeAll p.children + 1 + total pending

@[simp] theorem total_cons (p : Pending) (pending : List Pending) :
    total (p :: pending) = Html.Node.sizeAll p.children + 1 + total pending :=
  rfl

@[simp] theorem total_append (xs ys : List Pending) : total (xs ++ ys) = total xs + total ys := by
  induction xs with
  | nil => exact (Nat.zero_add _).symm
  | cons p xs ih => rw [List.cons_append, total_cons, total_cons, ih, ← Nat.add_assoc]

end Pending

/-- Appends parsed nodes to `parent`. Of their elements, in order, all that is below is pending. -/
def addChildren (d : Document) (parent : NodeId) : List Html.Node → Document × List Pending
  | [] => (d, [])
  | .element tag attributes children :: ns =>
    let added := addChildren (d.appendElement parent tag (Attribute.sorted attributes)) parent ns
    (added.1, ⟨d.nextId, children⟩ :: added.2)
  | .text content :: ns => addChildren (d.appendText parent content) parent ns
  | .other :: ns => addChildren d parent ns

theorem total_addChildren_le (d : Document) (parent : NodeId) (ns : List Html.Node) :
    Pending.total (d.addChildren parent ns).2 ≤ Html.Node.sizeAll ns := by
  induction ns generalizing d with
  | nil => exact Nat.le_refl 0
  | cons n ns ih =>
    cases n with
    | element tag attributes children =>
      have h := ih (d.appendElement parent tag (Attribute.sorted attributes))
      simp only [addChildren, Pending.total_cons, Html.Node.sizeAll, Html.Node.size]
      omega
    | text content =>
      have h := ih (d.appendText parent content)
      simp only [addChildren, Html.Node.sizeAll]
      omega
    | other =>
      have h := ih d
      simp only [addChildren, Html.Node.sizeAll]
      omega

/-- Takes the first of the pending elements and appends its children, until none is pending. The
elements among the children come before what was pending already. -/
def addPending (d : Document) : List Pending → Document
  | [] => d
  | p :: pending =>
    let added := d.addChildren p.parent p.children
    addPending added.1 (added.2 ++ pending)
termination_by pending => Pending.total pending
decreasing_by
  have h := d.total_addChildren_le p.parent p.children
  rw [Pending.total_append, Pending.total_cons]
  omega

/-- The document of a parsed element; nothing else can be a root. -/
def ofParsed : Html.Node → Document
  | .element tag attributes children =>
    addPending (Document.empty.createRoot tag (Attribute.sorted attributes))
      [⟨Document.empty.nextId, children⟩]
  | _ => .empty

end Document

end PageAudit
