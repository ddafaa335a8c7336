import PageAudit.Html.Node

/-!
# A tree under construction

Reading HTML moves nodes about after they were placed. A draft numbers its nodes and keeps for each its
parent and its children; the finished tree is read off at the end.
-/

namespace PageAudit.Html

/-- Where the name of an element belongs. -/
inductive Space where
  | html
  | svg
  | math
  deriving DecidableEq

inductive DraftContent where
  /-- The page itself, which holds the root. -/
  | page
  | element (space : Space) (tag : String) (attributes : List Attribute)
  | text (content : String)
  | comment

structure DraftNode where
  content : DraftContent
  parent? : Option Nat := none
  children : Array Nat := #[]

structure Draft where
  nodes : Array DraftNode := #[⟨.page, none, #[]⟩]

namespace Draft

/-- The number of the page. -/
def page : Nat := 0

/-- Adds a node without a parent; its number is the number of nodes before. -/
def add (d : Draft) (content : DraftContent) : Draft × Nat :=
  (⟨d.nodes.push ⟨content, none, #[]⟩⟩, d.nodes.size)

def change (d : Draft) (id : Nat) (f : DraftNode → DraftNode) : Draft :=
  ⟨d.nodes.modify id f⟩

def parent? (d : Draft) (id : Nat) : Option Nat :=
  d.nodes[id]?.bind (·.parent?)

def children (d : Draft) (id : Nat) : Array Nat :=
  (d.nodes[id]?.map (·.children)).getD #[]

/-- The name of an element and where it belongs. -/
def name? (d : Draft) (id : Nat) : Option (Space × String) :=
  match d.nodes[id]? with
  | some ⟨.element space tag _, _, _⟩ => some (space, tag)
  | _ => none

/-- Takes a node away from its parent. -/
def detach (d : Draft) (id : Nat) : Draft :=
  match d.parent? id with
  | none => d
  | some parent =>
    (d.change parent fun n => { n with children := n.children.filter (· ≠ id) }).change id
      fun n => { n with parent? := none }

/-- Puts a node behind the last child of `parent`. -/
def append (d : Draft) (parent id : Nat) : Draft :=
  ((d.detach id).change parent fun n => { n with children := n.children.push id }).change id
    fun n => { n with parent? := some parent }

/-- Puts a node right before `sibling`. -/
def insertBefore (d : Draft) (sibling id : Nat) : Draft :=
  let d := d.detach id
  match d.parent? sibling with
  | none => d
  | some parent =>
    (d.change parent fun n =>
      { n with children := n.children.flatMap fun x => if x = sibling then #[id, x] else #[x] }).change
      id fun n => { n with parent? := some parent }

def isText (d : Draft) (id : Nat) : Bool :=
  match d.nodes[id]? with
  | some ⟨.text _, _, _⟩ => true
  | _ => false

/-- Puts a character at the end of a text. -/
def lengthen (d : Draft) (id : Nat) (c : Char) : Draft :=
  d.change id fun n =>
    match n.content with
    | .text content => { n with content := .text (content.push c) }
    | _ => n

/-- Puts a character at the end of `parent`, into its last child if that is a text. -/
def appendChar (d : Draft) (parent : Nat) (c : Char) : Draft :=
  match (d.children parent).back?.filter d.isText with
  | some id => d.lengthen id c
  | none =>
    let (d, id) := d.add (.text (String.singleton c))
    d.append parent id

/-- Puts a character right before `sibling`, into the text there if there is one. -/
def charBefore (d : Draft) (sibling : Nat) (c : Char) : Draft :=
  let before := ((d.parent? sibling).map d.children).getD #[]
  match (before.toList.takeWhile (· ≠ sibling)).getLast?.filter d.isText with
  | some id => d.lengthen id c
  | none =>
    let (d, id) := d.add (.text (String.singleton c))
    d.insertBefore sibling id

/-- Moves all children of one node behind those of another. -/
def moveChildren (d : Draft) (source target : Nat) : Draft :=
  (d.children source).foldl (fun d id => d.append target id) d

/-- Adds those attributes whose names an element does not have yet. -/
def addMissing (d : Draft) (id : Nat) (attributes : List Attribute) : Draft :=
  d.change id fun n =>
    match n.content with
    | .element space tag own =>
      let missing := attributes.filter fun a => !own.any (·.name == a.name)
      { n with content := .element space tag (own ++ missing) }
    | _ => n

/-- The finished tree below a node, to at most `depth` levels. -/
def finishTo (d : Draft) : Nat → Nat → Node
  | 0, _ => .other
  | depth + 1, id =>
    match d.nodes[id]? with
    | some ⟨.element _ tag attributes, _, children⟩ =>
      .element tag attributes (children.toList.map (d.finishTo depth))
    | some ⟨.text content, _, _⟩ => .text content
    | _ => .other

/-- The finished tree of the first element on the page. -/
def finish (d : Draft) : Node :=
  match (d.children page).find? fun id => (d.name? id).isSome with
  | some id => d.finishTo d.nodes.size id
  | none => .other

end Draft

end PageAudit.Html
