import PageAudit.Document.Basic

/-!
# Building a document step by step

A list of steps, each of which creates a root, appends an element or appends a text. Parents are named
by handle: the elements created so far, counted from zero. A step whose handle names no element does
nothing.
-/

namespace PageAudit

inductive BuildStep where
  | root (tag : String) (attributes : List Attribute)
  | element (parent : Nat) (tag : String) (attributes : List Attribute)
  | text (parent : Nat) (content : String)

/-- The document so far, and the number of the element that each handle names. -/
structure Build where
  document : Document := .empty
  handles : List NodeId := []

namespace Build

def step (b : Build) : BuildStep → Build
  | .root tag attributes =>
    ⟨b.document.createRoot tag attributes, b.handles ++ [b.document.nextId]⟩
  | .element parent tag attributes =>
    match b.handles[parent]? with
    | some id =>
      ⟨b.document.appendElement id tag attributes, b.handles ++ [b.document.nextId]⟩
    | none => b
  | .text parent content =>
    match b.handles[parent]? with
    | some id => { b with document := b.document.appendText id content }
    | none => b

def run (steps : List BuildStep) : Build :=
  steps.foldl step {}

end Build

/-- The document that a list of steps builds. -/
def Document.ofSteps (steps : List BuildStep) : Document :=
  (Build.run steps).document

end PageAudit
