import PageAudit.Document.Basic

/-!
# Elements and their queries

An element is a document and the number of one of its element nodes. Whatever a rule asks of a
document goes through these queries.

`preorder` walks a subtree with a work list: it takes the first number off the list and puts the
node's children in its place. Every node of a document has one parent at most, so a walk takes no
more steps than the document has nodes.
-/

namespace PageAudit

namespace Document

/-- The nodes that a work list reaches, each before its children, in at most `steps` steps. -/
def walk (d : Document) : Nat → List NodeId → List NodeId
  | 0, _ => []
  | _, [] => []
  | steps + 1, id :: pending =>
    match d.nodes[id]? with
    | some n => id :: d.walk steps (n.children.toList ++ pending)
    | none => d.walk steps pending

/-- A node and all below it, in document order. -/
def preorder (d : Document) (id : NodeId) : List NodeId :=
  d.walk d.nodes.size [id]

def isElement (d : Document) (id : NodeId) : Bool :=
  d.nodes[id]?.any (·.isElement)

/-- The content of a text node, and nothing of an element. -/
def textAt (d : Document) (id : NodeId) : String :=
  match d.nodes[id]? with
  | some ⟨.text content, _⟩ => content
  | _ => ""

end Document

structure Element where
  document : Document
  id : NodeId

namespace Element

/-- The tag and the attributes. -/
def head (e : Element) : String × List Attribute :=
  match e.document.nodes[e.id]? with
  | some ⟨.element tag attributes, _⟩ => (tag, attributes)
  | _ => ("", [])

def tag (e : Element) : String := e.head.1

def attributes (e : Element) : List Attribute := e.head.2

/-- The value of an attribute; the case of its name does not matter. -/
def attr? (e : Element) (name : String) : Option String :=
  (e.attributes.find? fun a => Text.sameName a.name name).map (·.value)

def hasAttr (e : Element) (name : String) : Bool :=
  (e.attr? name).isSome

/-- The children that are elements. -/
def children (e : Element) : List Element :=
  match e.document.nodes[e.id]? with
  | some n => (n.children.toList.filter e.document.isElement).map (⟨e.document, ·⟩)
  | none => []

def hasChild (e : Element) (tag : String) : Bool :=
  e.children.any (·.tag == tag)

/-- The element and every element below it, in document order. -/
def descendants (e : Element) : List Element :=
  ((e.document.preorder e.id).filter e.document.isElement).map (⟨e.document, ·⟩)

/-- The descendants with one of the `tags`. -/
def findAll (e : Element) (tags : List String) : List Element :=
  e.descendants.filter fun x => tags.contains x.tag

/-- All text below the element, joined in document order. -/
def textContent (e : Element) : String :=
  String.join ((e.document.preorder e.id).map e.document.textAt)

end Element

namespace Document

def root (d : Document) : Option Element :=
  d.root?.map (⟨d, ·⟩)

/-- Every element below the root, in document order. -/
def elements (d : Document) : List Element :=
  (d.root.map (·.descendants)).getD []

def elementsByTag (d : Document) (tags : List String) : List Element :=
  (d.root.map (·.findAll tags)).getD []

def firstByTag (d : Document) (tag : String) : Option Element :=
  (d.elementsByTag [tag]).head?

end Document

end PageAudit
