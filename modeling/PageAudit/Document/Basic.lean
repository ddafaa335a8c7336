import PageAudit.Text.Case

/-!
# Documents

A document is a numbered store of element and text nodes with at most one root. Nodes are only ever
added: the number of a new node is the number of nodes before it. A node below a replaced root stays
in the store and can still be appended to.
-/

namespace PageAudit

/-- The number of a node in its document. -/
abbrev NodeId := Nat

structure Attribute where
  name : String
  value : String
  deriving DecidableEq, Repr, Inhabited

inductive NodeKind where
  | element (tag : String) (attributes : List Attribute)
  | text (content : String)
  deriving DecidableEq, Repr

structure Node where
  kind : NodeKind
  children : Array NodeId := #[]
  deriving Repr

structure Document where
  nodes : Array Node := #[]
  root? : Option NodeId := none
  deriving Repr

namespace Attribute

/-- The attributes an element keeps of a written list: names in lower case, and of several with one
name the first. -/
def distinct (attributes : List Attribute) : List Attribute :=
  attributes.foldl (fun kept a =>
    let name := Text.lower a.name
    if kept.any (·.name == name) then kept else kept ++ [⟨name, a.value⟩]) []

end Attribute

namespace Node

/-- A new element: its tag in lower case, its attributes distinct, no children. -/
def element (tag : String) (attributes : List Attribute) : Node :=
  ⟨.element (Text.lower tag) (Attribute.distinct attributes), #[]⟩

def text (content : String) : Node :=
  ⟨.text content, #[]⟩

def isElement (n : Node) : Bool :=
  match n.kind with
  | .element .. => true
  | .text _ => false

end Node

namespace Document

def empty : Document := {}

/-- The number that the next node gets. -/
def nextId (d : Document) : NodeId := d.nodes.size

/-- Stores a node that no other node lists as a child. -/
def addNode (d : Document) (n : Node) : Document :=
  { d with nodes := d.nodes.push n }

/-- Lists `child` as the last child of `parent`. -/
def link (d : Document) (parent child : NodeId) : Document :=
  { d with nodes := d.nodes.modify parent fun n => { n with children := n.children.push child } }

/-- Adds an element and makes it the root, whatever was the root before. -/
def createRoot (d : Document) (tag : String) (attributes : List Attribute) : Document :=
  { d.addNode (.element tag attributes) with root? := some d.nextId }

/-- Adds an element as the last child of `parent`. -/
def appendElement (d : Document) (parent : NodeId) (tag : String) (attributes : List Attribute) :
    Document :=
  (d.addNode (.element tag attributes)).link parent d.nextId

/-- Adds a text as the last child of `parent`. -/
def appendText (d : Document) (parent : NodeId) (content : String) : Document :=
  (d.addNode (.text content)).link parent d.nextId

end Document

end PageAudit
