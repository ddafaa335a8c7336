import PageAudit.Html.Modes

/-!
# Reading a page

Tokens are taken off the text one after the other and change the builder. Inside SVG and mathematics
they follow rules of their own. Whatever the text, the result has a root.

This reads ordinary pages. Of the names for characters it knows those of Latin-1 and some more, and a
template or a set of frames is an element like any other. What a check does is stated for every parser.
-/

namespace PageAudit

namespace Html

namespace Builder

/-! ## Other languages -/

/-- An element of another language that holds HTML. -/
def hostsHtml (b : Builder) (id : Nat) : Bool :=
  hostTags.contains (b.nameOf id)

/-- The token belongs to the SVG or the mathematics around it. -/
def isForeign (b : Builder) (t : Token) : Bool :=
  match b.stack.head?, t with
  | none, _ => false
  | _, .endOfText => false
  | some id, .endTag _ => (b.nameOf id).1 ≠ .html
  | some id, _ => (b.nameOf id).1 ≠ .html && !b.hostsHtml id

/-- Closes elements until the innermost is HTML or holds it. -/
def leaveForeign (b : Builder) : Builder :=
  { b with stack := b.stack.dropWhile fun id => (b.nameOf id).1 ≠ .html && !b.hostsHtml id }

def breaksOut (t : Tag) : Bool :=
  breakoutTags.contains t.name
    || (t.name = "font" && t.attributes.any fun a => ["color", "face", "size"].contains a.name)

/-- A closing tag inside another language: it closes the innermost element with that name, unless HTML
comes first. -/
def foreignEnd (b : Builder) (name : String) : List Nat → Result
  | [] => b.done
  | id :: rest =>
    let (space, tag) := b.nameOf id
    if rest.isEmpty then b.done
    else if tag = name then
      if space = .html then b.inMode (.endTag name) else done { b with stack := rest }
    else if rest.head?.any fun x => (b.nameOf x).1 = .html then b.inMode (.endTag name)
    else b.foreignEnd name rest

def inForeign (b : Builder) : Token → Result
  | .char c => (b.insertChar (noNul c)).done
  | .comment => b.insertComment.done
  | .doctype _ => b.done
  | .startTag t =>
    if breaksOut t then b.leaveForeign.inMode (.startTag t)
    else
      let space := (b.stack.head?.map fun id => (b.nameOf id).1).getD .html
      let b := b.openIn space { t with attributes := unmarked t.attributes }
      (if t.selfClosing then b.pop else b).done
  | .endTag name =>
    if name = "br" || name = "p" then b.leaveForeign.inMode (.endTag name)
    else b.foreignEnd name b.stack
  | .endOfText => b.done

/-! ## The loop -/

/-- Looks at a token until it has been dealt with, at most `times` times. -/
def take (t : Token) : Nat → Builder → Builder
  | 0, b => b
  | times + 1, b =>
    let (b, repeated) := if b.isForeign t then b.inForeign t else b.inMode t
    if repeated then take t times b else b

/-- A token changes the mode a few times for each open element at the most. -/
def accept (b : Builder) (t : Token) : Builder :=
  let skip := b.skipNewline
  let b := { b with skipNewline := false }
  match t, skip with
  | .char '\n', true => b
  | _, _ => take t (4 * b.stack.length + 16) b

/-- Reads the raw content of the element just opened. -/
def readContent (b : Builder) (cs : List Char) : Builder × List Char :=
  match b.content? with
  | none => (b, cs)
  | some (content, name) =>
    let (text, rest) := rawText content name cs
    (text.foldl (fun b c => b.accept (.char c)) { b with content? := none }, rest)

/-- Reads a text of at most `size` characters. -/
def read : Nat → Builder → List Char → Builder
  | 0, b, _ => b
  | size + 1, b, cs =>
    match next? (b.stack.head?.any fun id => (b.nameOf id).1 ≠ .html) cs with
    | none => b
    | some (tokens, rest) =>
      let (b, rest) := (tokens.foldl accept b).readContent rest
      read size b rest

end Builder

/-- The root of the page that a text spells. -/
def parse (s : String) : Node :=
  let cs := prepare s
  (({} : Builder).read (cs.length + 1) cs |>.accept .endOfText).draft.finish

end Html

/-- The document that a page of HTML spells. It always has a root. -/
def Document.parseHtml (s : String) : Document :=
  .ofParsed (Html.parse s)

end PageAudit
