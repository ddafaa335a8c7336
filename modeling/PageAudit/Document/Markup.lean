import PageAudit.Document.Tree

/-!
# Markup

The text of a tree: tags, attributes in double quotes, text, with the characters escaped that would
read as markup. A void element has neither content nor a closing tag.

An excerpt is markup written into a buffer of bounded length. Writing stops when the buffer is full.
-/

namespace PageAudit

namespace Markup

/-- Elements without content and closing tag. -/
def voidTags : List String :=
  ["area", "base", "br", "col", "embed", "hr", "img", "input", "link", "meta", "source", "track",
    "wbr"]

def isVoid (tag : String) : Bool :=
  voidTags.contains tag

/-- How a character of an attribute value is written. -/
def escapeInValue : Char → List Char
  | '&' => "&amp;".toList
  | '"' => "&quot;".toList
  | c => [c]

/-- How a character of a text is written. -/
def escapeInText : Char → List Char
  | '&' => "&amp;".toList
  | '<' => "&lt;".toList
  | '>' => "&gt;".toList
  | c => [c]

def value (s : String) : List Char :=
  s.toList.flatMap escapeInValue

def text (s : String) : List Char :=
  s.toList.flatMap escapeInText

/-- An attribute with the space before it. -/
def pair (a : Attribute) : List Char :=
  ' ' :: a.name.toList ++ '=' :: '"' :: value a.value ++ ['"']

def openingTag (tag : String) (attributes : List Attribute) : List Char :=
  '<' :: tag.toList ++ attributes.flatMap pair ++ ['>']

def closingTag (tag : String) : List Char :=
  '<' :: '/' :: tag.toList ++ ['>']

end Markup

namespace Tree

open Markup

mutual

/-- The markup of a tree. -/
def markup : Tree → List Char
  | .text content => Markup.text content
  | .element tag attributes children =>
    if isVoid tag then openingTag tag attributes
    else openingTag tag attributes ++ markupAll children ++ closingTag tag

/-- The markup of trees in a row. -/
def markupAll : List Tree → List Char
  | [] => []
  | t :: ts => markup t ++ markupAll ts

end

end Tree

/-- A buffer for at most `limit` characters; `cut` tells that something did not fit. -/
structure Excerpt where
  limit : Nat
  chars : List Char := []
  size : Nat := 0
  cut : Bool := false

namespace Excerpt

/-- Writes as much of `piece` as there is room for; nothing once cut. -/
def push (b : Excerpt) (piece : List Char) : Excerpt :=
  if b.cut then b
  else
    let room := b.limit - b.size
    if piece.length ≤ room then
      { b with chars := b.chars ++ piece, size := b.size + piece.length }
    else { b with chars := b.chars ++ piece.take room, size := b.limit, cut := true }

open Markup

mutual

/-- Writes the markup of a tree, leaving off as soon as the buffer is full. -/
def write (b : Excerpt) : Tree → Excerpt
  | .text content => if b.cut then b else b.push (Markup.text content)
  | .element tag attributes children =>
    if b.cut then b
    else
      let opened := b.push (openingTag tag attributes)
      if isVoid tag then opened
      else
        let filled := writeAll opened children
        if filled.cut then filled else filled.push (closingTag tag)

def writeAll (b : Excerpt) : List Tree → Excerpt
  | [] => b
  | t :: ts => if b.cut then b else writeAll (write b t) ts

end

/-- What was written, with three dots where it was cut. -/
def result (b : Excerpt) : List Char :=
  if b.cut then b.chars ++ "...".toList else b.chars

end Excerpt

namespace Tree

/-- The markup of a tree, cut after `limit` characters. -/
def excerpt (limit : Nat) (t : Tree) : List Char :=
  (Excerpt.write ⟨limit, [], 0, false⟩ t).result

end Tree

namespace Element

/-- The opening tag alone. -/
def openingTag (e : Element) : String :=
  .ofList (Markup.openingTag e.tag e.attributes)

/-- The markup of the element and all below it. -/
def outerHtml (e : Element) : String :=
  .ofList e.tree.markup

/-- The markup, cut after `limit` characters. -/
def excerpt (e : Element) (limit : Nat) : String :=
  .ofList (e.tree.excerpt limit)

end Element

end PageAudit
