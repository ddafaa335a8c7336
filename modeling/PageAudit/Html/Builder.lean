import PageAudit.Html.Vocabulary

/-!
# Building the tree of a page

The state in which tokens are read: the draft, the open elements with the innermost first, the
formatting elements that are to be opened anew, and the part of the page that is being read. The
operations here are the ones that the rules for the parts share.
-/

namespace PageAudit.Html

/-- The part of a page that is being read. -/
inductive Mode where
  | initial
  | beforeHtml
  | beforeHead
  | inHead
  | afterHead
  | inBody
  | text
  | inTable
  | inTableText
  | inCaption
  | inColumnGroup
  | inTableBody
  | inRow
  | inCell
  | inSelect
  | inSelectInTable
  | afterBody
  | afterAfterBody
  deriving DecidableEq

/-- A formatting element with the tag that opened it, or a mark that the search for one stops at. -/
inductive Formatting where
  | marker
  | element (id : Nat) (tag : Tag)

namespace Formatting

def id? : Formatting → Option Nat
  | marker => none
  | element id _ => some id

end Formatting

structure Builder where
  draft : Draft := {}
  /-- The open elements, innermost first. -/
  stack : List Nat := []
  mode : Mode := .initial
  /-- The mode to go back to after raw text or text in a table. -/
  returnMode : Mode := .initial
  /-- The formatting elements, latest first. -/
  formatting : List Formatting := []
  head? : Option Nat := none
  form? : Option Nat := none
  /-- Content that may not stand in a table goes before it. -/
  foster : Bool := false
  oldPage : Bool := false
  /-- Characters between the parts of a table. -/
  tableText : List Char := []
  /-- A line break right after the tag does not count. -/
  skipNewline : Bool := false
  /-- How the content of the element just opened is to be read, if it holds no tags. -/
  content? : Option (Content × String) := none

namespace Builder

/-! ## Open elements -/

def nameOf (b : Builder) (id : Nat) : Space × String :=
  (b.draft.name? id).getD (.html, "")

def isHtml (b : Builder) (id : Nat) (tags : List String) : Bool :=
  let (space, tag) := b.nameOf id
  space = .html && tags.contains tag

def currentIs (b : Builder) (tags : List String) : Bool :=
  b.stack.head?.any (b.isHtml · tags)

def pop (b : Builder) : Builder :=
  { b with stack := b.stack.drop 1 }

/-- An open element satisfies `p`, and none of those further in ends the scope. -/
def findInScope (b : Builder) (s : Scope) (p : Nat → Bool) : List Nat → Bool
  | [] => false
  | id :: rest => p id || (!s.endsAt (b.nameOf id) && findInScope b s p rest)

def hasInScope (b : Builder) (s : Scope) (tags : List String) : Bool :=
  b.findInScope s (b.isHtml · tags) b.stack

/-- Closes elements up to the innermost of those `tags`. -/
def closeUpTo (b : Builder) (tags : List String) : Builder :=
  { b with stack := (b.stack.dropWhile (!b.isHtml · tags)).drop 1 }

/-- Closes elements until one of those `tags` is innermost. -/
def closeDownTo (b : Builder) (tags : List String) : Builder :=
  { b with stack := b.stack.dropWhile (!b.isHtml · tags) }

/-- Closes the innermost elements that end by themselves. -/
def closeImplied (b : Builder) (except : List String) : Builder :=
  let closes := fun id => b.isHtml id (impliedEndTags.filter (!except.contains ·))
  { b with stack := b.stack.dropWhile closes }

/-- Closes an element in scope together with what ends by itself inside it. -/
def closeElement (b : Builder) (s : Scope) (tags : List String) (except : List String) : Builder :=
  if b.hasInScope s tags then (b.closeImplied except).closeUpTo tags else b

def closeParagraph (b : Builder) : Builder :=
  b.closeElement .button ["p"] ["p"]

/-! ## Placing nodes -/

def fosterTargets : List String := ["table", "tbody", "tfoot", "thead", "tr"]

/-- Where a new node goes: behind the children of a node, or before a node. -/
inductive Place where
  | inside (parent : Nat)
  | before (sibling : Nat)

/-- The place before the innermost table, or in the element around it if the table has no parent. -/
def fosterPlace (b : Builder) : Place :=
  match b.stack.dropWhile (!b.isHtml · ["table"]) with
  | table :: around =>
    if (b.draft.parent? table).isSome then .before table else .inside (around.head?.getD Draft.page)
  | [] => .inside (b.stack.getLast?.getD Draft.page)

/-- The place for a new child of `target`. -/
def placeIn (b : Builder) (target : Nat) : Place :=
  if b.foster && b.isHtml target fosterTargets then b.fosterPlace else .inside target

/-- The place for a new child of the innermost element. -/
def place (b : Builder) : Place :=
  b.placeIn (b.stack.head?.getD Draft.page)

def put (b : Builder) (p : Place) (id : Nat) : Builder :=
  match p with
  | .inside parent => { b with draft := b.draft.append parent id }
  | .before sibling => { b with draft := b.draft.insertBefore sibling id }

def insertChar (b : Builder) (c : Char) : Builder :=
  match b.place with
  | .inside parent => { b with draft := b.draft.appendChar parent c }
  | .before sibling => { b with draft := b.draft.charBefore sibling c }

def insertComment (b : Builder) : Builder :=
  let p := b.place
  let (draft, id) := b.draft.add .comment
  { b with draft := draft }.put p id

/-- Makes an element without placing it. -/
def create (b : Builder) (space : Space) (t : Tag) : Builder × Nat :=
  let (draft, id) := b.draft.add (.element space t.name t.attributes)
  ({ b with draft := draft }, id)

/-- Makes and places an element that stays open. -/
def openIn (b : Builder) (space : Space) (t : Tag) : Builder :=
  let p := b.place
  let (b, id) := b.create space t
  let b := b.put p id
  { b with stack := id :: b.stack }

def openTag (b : Builder) (t : Tag) : Builder :=
  b.openIn .html t

/-- Makes and places an element without a tag of its own in the text. -/
def openImplied (b : Builder) (tag : String) : Builder :=
  b.openTag ⟨tag, [], false⟩

/-- Makes and places an element that is closed at once. -/
def insertTag (b : Builder) (t : Tag) : Builder :=
  (b.openTag t).pop

/-- Opens an element whose content holds no tags. -/
def openRaw (b : Builder) (t : Tag) (content : Content) : Builder :=
  { b.openTag t with
    content? := some (content, t.name)
    returnMode := b.mode
    mode := .text }

/-! ## Formatting -/

def markFormatting (b : Builder) : Builder :=
  { b with formatting := .marker :: b.formatting }

def isMarker : Formatting → Bool
  | .marker => true
  | .element .. => false

/-- Forgets the formatting elements since the last mark, and the mark. -/
def clearFormatting (b : Builder) : Builder :=
  { b with formatting := (b.formatting.dropWhile (!isMarker ·)).drop 1 }

def recent (b : Builder) : List Formatting :=
  b.formatting.takeWhile (!isMarker ·)

/-- The latest formatting element with that tag since the last mark. -/
def recentNamed? (b : Builder) (name : String) : Option (Nat × Tag) :=
  b.recent.findSome? fun
    | .element id t => if t.name == name then some (id, t) else none
    | .marker => none

def formattingOf? (b : Builder) (id : Nat) : Option Tag :=
  b.formatting.findSome? fun
    | .element x t => if x = id then some t else none
    | .marker => none

def forget (b : Builder) (id : Nat) : Builder :=
  { b with formatting := b.formatting.filter (·.id? ≠ some id) }

def replaceFormatting (b : Builder) (old new : Nat) (t : Tag) : Builder :=
  { b with
    formatting := b.formatting.map fun f => if f.id? = some old then .element new t else f }

/-- Two tags open the same formatting. -/
def sameFormatting (s t : Tag) : Bool :=
  s.name == t.name && Attribute.sorted s.attributes == Attribute.sorted t.attributes

/-- Opens a formatting element. Of more than three alike since the last mark the earliest is
forgotten. -/
def openFormatting (b : Builder) (t : Tag) : Builder :=
  let alike := b.recent.filterMap fun
    | .element id s => if sameFormatting s t then some id else none
    | .marker => none
  let b := if 3 ≤ alike.length then b.forget (alike.getLast?.getD 0) else b
  let b := b.openTag t
  { b with formatting := .element (b.stack.head?.getD 0) t :: b.formatting }

/-- Opens again the formatting elements that were closed since the last mark or open element. -/
def reopenFormatting (b : Builder) : Builder :=
  let closed := b.formatting.takeWhile fun f => f.id?.any (!b.stack.contains ·)
  closed.reverse.foldl (fun b f =>
    match f with
    | .marker => b
    | .element id t =>
      let b := b.openTag t
      b.replaceFormatting id (b.stack.head?.getD 0) t) b

/-- Closes the innermost element with that tag, unless a special element is further in. -/
def closeOrdinary (b : Builder) (name : String) : Builder :=
  let inner := b.stack.takeWhile fun id => !b.isHtml id [name] && !isSpecial (b.nameOf id)
  match b.stack.drop inner.length with
  | id :: rest =>
    if b.isHtml id [name] then { b with stack := rest } else b
  | [] => b

/-- What the walk from a block out to a formatting element has come to. -/
structure Walk where
  builder : Builder
  /-- The outermost element put together so far. -/
  last : Nat
  /-- The copy that the new formatting element comes after. -/
  bookmark? : Option Nat := none
  count : Nat := 0

/-- One element between the block and the formatting element: dropped from the open elements, or
replaced by a copy around what was put together. -/
def Walk.step (block : Nat) (w : Walk) (id : Nat) : Walk :=
  let b := w.builder
  let count := w.count + 1
  let dropped := { b with stack := b.stack.filter (· ≠ id) }
  match b.formattingOf? id with
  | none => { w with builder := dropped, count := count }
  | some t =>
    if 3 < count then { w with builder := dropped.forget id, count := count }
    else
      let (b, copy) := b.create .html t
      let b := { b with stack := b.stack.map fun x => if x = id then copy else x }
      let b := b.replaceFormatting id copy t
      let b := { b with draft := b.draft.append copy w.last }
      ⟨b, copy, if w.last = block then some copy else w.bookmark?, count⟩

/-- Rearranges the tree around a block that a formatting element does not enclose properly: the element
ends before the block and a copy of it takes over the block's content. -/
def splitAround (b : Builder) (id block : Nat) (t : Tag) : Builder :=
  let between := ((b.stack.takeWhile (· ≠ id)).dropWhile (· ≠ block)).drop 1
  let ancestor := ((b.stack.dropWhile (· ≠ id)).drop 1).head?.getD Draft.page
  let w := between.foldl (Walk.step block) ⟨b, block, none, 0⟩
  let b := { w.builder with draft := w.builder.draft.detach w.last }
  let b := b.put (b.placeIn ancestor) w.last
  let (b, copy) := b.create .html t
  let b := { b with draft := (b.draft.moveChildren block copy).append block copy }
  let b := match w.bookmark? with
    | none => b.replaceFormatting id copy t
    | some mark =>
      { b with
        formatting := (b.forget id).formatting.flatMap fun (f : Formatting) =>
          if f.id? = some mark then [.element copy t, f] else [f] }
  { b with
    stack := (b.stack.filter (· ≠ id)).flatMap fun x => if x = block then [copy, x] else [x] }

/-- Closes a formatting element, splitting it around blocks, in at most `rounds` rounds. -/
def closeFormattingIn (b : Builder) (name : String) : Nat → Builder
  | 0 => b
  | rounds + 1 =>
    match b.recentNamed? name with
    | none => b.closeOrdinary name
    | some (id, t) =>
      if !b.stack.contains id then b.forget id
      else if !b.findInScope .any (· == id) b.stack then b
      else
        let inner := b.stack.takeWhile (· ≠ id)
        match inner.reverse.find? fun x => isSpecial (b.nameOf x) with
        | none => { b with stack := (b.stack.dropWhile (· ≠ id)).drop 1 }.forget id
        | some block => (b.splitAround id block t).closeFormattingIn name rounds

def closeFormatting (b : Builder) (name : String) : Builder :=
  match b.stack with
  | id :: rest =>
    if b.isHtml id [name] && (b.formattingOf? id).isNone then { b with stack := rest }
    else b.closeFormattingIn name 8
  | [] => b

/-! ## Finding the mode -/

/-- The mode that the open elements, innermost first, put the reader in. -/
def modeOf (b : Builder) : List Nat → Mode
  | [] => .inBody
  | id :: rest =>
    let outermost := rest.isEmpty
    let (space, tag) := b.nameOf id
    if space ≠ .html then b.modeOf rest
    else if tag = "select" then
      if rest.any (b.isHtml · ["table"]) then .inSelectInTable else .inSelect
    else if (tag = "td" || tag = "th") && !outermost then .inCell
    else if tag = "tr" then .inRow
    else if rowGroups.contains tag then .inTableBody
    else if tag = "caption" then .inCaption
    else if tag = "colgroup" then .inColumnGroup
    else if tag = "table" then .inTable
    else if tag = "head" && !outermost then .inHead
    else if tag = "body" then .inBody
    else if tag = "html" then if b.head?.isNone then .beforeHead else .afterHead
    else b.modeOf rest

def resetMode (b : Builder) : Builder :=
  { b with mode := b.modeOf b.stack }

end Builder

end PageAudit.Html
