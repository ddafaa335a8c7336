import PageAudit.Html.Builder

/-!
# The rules for the parts of a page

One function for each mode tells what a token does there. A token that belongs to another mode is looked
at again after the change of mode.
-/

namespace PageAudit.Html

namespace Builder

/-- The state after a token, and whether the token is to be looked at again. -/
abbrev Result := Builder × Bool

def done (b : Builder) : Result := (b, false)

/-- Looks at the token again in another mode. -/
def again (m : Mode) (b : Builder) : Result := ({ b with mode := m }, true)

def goTo (m : Mode) (b : Builder) : Result := done { b with mode := m }

/-! ## Before the body -/

def initial (b : Builder) : Token → Result
  | .char c => if isSpace c then b.done else again .beforeHtml { b with oldPage := true }
  | .comment => b.done
  | .doctype d => goTo .beforeHtml { b with oldPage := isOldPage d }
  | _ => again .beforeHtml { b with oldPage := true }

/-- Makes the root. -/
def openRoot (b : Builder) (t : Tag) : Builder :=
  let (b, id) := b.create .html t
  { b with draft := b.draft.append Draft.page id, stack := [id] }

def closesEarly : List String := ["head", "body", "html", "br"]

def beforeHtml (b : Builder) (t : Token) : Result :=
  let other := again .beforeHead (b.openRoot ⟨"html", [], false⟩)
  match t with
  | .char c => if isSpace c then b.done else other
  | .comment => b.done
  | .doctype _ => b.done
  | .startTag t => if t.name = "html" then goTo .beforeHead (b.openRoot t) else other
  | .endTag name => if closesEarly.contains name then other else b.done
  | .endOfText => other

/-- A tag of the root inside the page only adds attributes to it. -/
def mergeRoot (b : Builder) (t : Tag) : Builder :=
  { b with draft := b.draft.addMissing (b.stack.getLast?.getD Draft.page) t.attributes }

def openHead (b : Builder) (t : Tag) : Builder :=
  let b := b.openTag t
  { b with head? := b.stack.head? }

def beforeHead (b : Builder) (t : Token) : Result :=
  let other := again .inHead (b.openHead ⟨"head", [], false⟩)
  match t with
  | .char c => if isSpace c then b.done else other
  | .comment => b.insertComment.done
  | .doctype _ => b.done
  | .startTag t =>
    if t.name = "html" then (b.mergeRoot t).done
    else if t.name = "head" then goTo .inHead (b.openHead t)
    else other
  | .endTag name => if closesEarly.contains name then other else b.done
  | .endOfText => other

/-- A tag that belongs into the head, wherever it stands. -/
def headTag (b : Builder) (t : Tag) : Builder :=
  match t.name with
  | "title" => b.openRaw t .escapable
  | "noframes" => b.openRaw t .raw
  | "style" => b.openRaw t .raw
  | "script" => b.openRaw t .script
  | "template" => b.openTag t
  | _ => b.insertTag t

def inHead (b : Builder) (t : Token) : Result :=
  let other := again .afterHead b.pop
  match t with
  | .char c => if isSpace c then (b.insertChar c).done else other
  | .comment => b.insertComment.done
  | .doctype _ => b.done
  | .startTag t =>
    if t.name = "html" then (b.mergeRoot t).done
    else if headTags.contains t.name then (b.headTag t).done
    else if t.name = "noscript" then (b.openRaw t .raw).done
    else if t.name = "head" then b.done
    else other
  | .endTag name =>
    if name = "head" then goTo .afterHead b.pop
    else if name = "template" then (b.closeElement .any ["template"] []).done
    else if ["body", "html", "br"].contains name then other
    else b.done
  | .endOfText => other

def afterHead (b : Builder) (t : Token) : Result :=
  let other := again .inBody (b.openImplied "body")
  match t with
  | .char c => if isSpace c then (b.insertChar c).done else other
  | .comment => b.insertComment.done
  | .doctype _ => b.done
  | .startTag t =>
    if t.name = "html" then (b.mergeRoot t).done
    else if t.name = "body" then goTo .inBody (b.openTag t)
    else if headTags.contains t.name then
      match b.head? with
      | some head =>
        let inside := { b with stack := head :: b.stack }.headTag t
        done { inside with stack := inside.stack.filter (· ≠ head) }
      | none => b.done
    else if t.name = "head" then b.done
    else other
  | .endTag name => if ["body", "html", "br"].contains name then other else b.done
  | .endOfText => other

/-! ## The body -/

/-- Closes the list item that a new one ends; the search stops at special elements. -/
def closeItem (b : Builder) (tags : List String) : Builder :=
  let stops := fun id => isSpecial (b.nameOf id) && !b.isHtml id ["address", "div", "p"]
  match b.stack.find? fun id => b.isHtml id tags || stops id with
  | some id =>
    if b.isHtml id tags then
      let tag := (b.nameOf id).2
      (b.closeImplied [tag]).closeUpTo [tag]
    else b
  | none => b

def tableModes : List Mode := [.inTable, .inCaption, .inTableBody, .inRow, .inCell]

/-- An opening tag in the body. -/
def bodyStart (b : Builder) (t : Tag) : Builder :=
  let n := t.name
  if n = "html" then b.mergeRoot t
  else if headTags.contains n then b.headTag t
  else if n = "body" then
    match b.stack.reverse[1]? with
    | some id => if b.isHtml id ["body"] then { b with draft := b.draft.addMissing id t.attributes } else b
    | none => b
  else if n = "frameset" then b
  else if blockTags.contains n then b.closeParagraph.openTag t
  else if headings.contains n then
    let b := b.closeParagraph
    (if b.currentIs headings then b.pop else b).openTag t
  else if n = "pre" || n = "listing" then { b.closeParagraph.openTag t with skipNewline := true }
  else if n = "form" then
    if b.form?.isSome then b
    else
      let b := b.closeParagraph.openTag t
      { b with form? := b.stack.head? }
  else if n = "li" then (b.closeItem ["li"]).closeParagraph.openTag t
  else if n = "dd" || n = "dt" then (b.closeItem ["dd", "dt"]).closeParagraph.openTag t
  else if n = "plaintext" then b.closeParagraph.openRaw t .plain
  else if n = "button" then
    (b.closeElement .any ["button"] []).reopenFormatting.openTag t
  else if n = "a" then
    let b := match b.recentNamed? "a" with
      | some (id, _) =>
        let b := (b.closeFormatting "a").forget id
        { b with stack := b.stack.filter (· ≠ id) }
      | none => b
    b.reopenFormatting.openFormatting t
  else if n = "nobr" then
    let b := b.reopenFormatting
    let b := if b.hasInScope .any ["nobr"] then (b.closeFormatting "nobr").reopenFormatting else b
    b.openFormatting t
  else if formattingTags.contains n then b.reopenFormatting.openFormatting t
  else if ["applet", "marquee", "object"].contains n then
    (b.reopenFormatting.openTag t).markFormatting
  else if n = "table" then
    let b := if b.oldPage then b else b.closeParagraph
    { b.openTag t with mode := .inTable }
  else if ["area", "br", "embed", "img", "keygen", "wbr", "input"].contains n then
    b.reopenFormatting.insertTag t
  else if n = "image" then b.reopenFormatting.insertTag { t with name := "img" }
  else if ["param", "source", "track"].contains n then b.insertTag t
  else if n = "hr" then b.closeParagraph.insertTag t
  else if n = "textarea" then { b.openRaw t .escapable with skipNewline := true }
  else if n = "xmp" then b.closeParagraph.reopenFormatting.openRaw t .raw
  else if ["iframe", "noembed", "noscript"].contains n then b.openRaw t .raw
  else if n = "select" then
    let mode := if tableModes.contains b.mode then .inSelectInTable else .inSelect
    { b.reopenFormatting.openTag t with mode := mode }
  else if n = "optgroup" || n = "option" then
    (if b.currentIs ["option"] then b.pop else b).reopenFormatting.openTag t
  else if n = "rb" || n = "rtc" then
    (if b.hasInScope .any ["ruby"] then b.closeImplied [] else b).openTag t
  else if n = "rp" || n = "rt" then
    (if b.hasInScope .any ["ruby"] then b.closeImplied ["rtc"] else b).openTag t
  else if n = "svg" || n = "math" then
    let space := if n = "svg" then .svg else .math
    let b := b.reopenFormatting.openIn space { t with attributes := unmarked t.attributes }
    if t.selfClosing then b.pop else b
  else if n = "head" || n = "frame" || tableParts.contains n then b
  else b.reopenFormatting.openTag t

/-- A closing tag in the body, those of the body and the root apart. -/
def bodyEnd (b : Builder) (n : String) : Builder :=
  if n = "template" then b.closeElement .any ["template"] []
  else if n = "p" then
    (if b.hasInScope .button ["p"] then b else b.openImplied "p").closeParagraph
  else if (blockTags ++ ["button", "listing", "pre"]).contains n then b.closeElement .any [n] []
  else if n = "form" then
    match b.form? with
    | some id =>
      let b := { b with form? := none }
      if b.findInScope .any (· == id) b.stack then
        let b := b.closeImplied []
        { b with stack := b.stack.filter (· ≠ id) }
      else b
    | none => b
  else if n = "li" then b.closeElement .listItem ["li"] ["li"]
  else if n = "dd" || n = "dt" then b.closeElement .any [n] [n]
  else if headings.contains n then b.closeElement .any headings []
  else if formattingTags.contains n then b.closeFormatting n
  else if ["applet", "marquee", "object"].contains n then
    if b.hasInScope .any [n] then (b.closeElement .any [n] []).clearFormatting else b
  else if n = "br" then b.reopenFormatting.insertTag ⟨"br", [], false⟩
  else b.closeOrdinary n

def inBody (b : Builder) : Token → Result
  | .char c =>
    if c = '\x00' then b.done else (b.reopenFormatting.insertChar c).done
  | .comment => b.insertComment.done
  | .doctype _ => b.done
  | .startTag t => (b.bodyStart t).done
  | .endTag name =>
    if name = "body" then if b.hasInScope .any ["body"] then goTo .afterBody b else b.done
    else if name = "html" then if b.hasInScope .any ["body"] then again .afterBody b else b.done
    else (b.bodyEnd name).done
  | .endOfText => b.done

/-- The content of an element without tags, and its closing tag. -/
def inText (b : Builder) : Token → Result
  | .char c => (b.insertChar c).done
  | .endTag _ => goTo b.returnMode b.pop
  | .endOfText => again b.returnMode b.pop
  | _ => b.done

/-! ## Tables -/

/-- Treats a token as in the body, but puts what it yields before the table. -/
def fosterInBody (b : Builder) (t : Token) : Result :=
  let (b, repeated) := { b with foster := true }.inBody t
  ({ b with foster := false }, repeated)

def isHidden (t : Tag) : Bool :=
  t.attributes.any fun a => a.name == "type" && String.ofList (a.value.toList.map Char.toLower) == "hidden"

def tableContext : List String := ["table", "template", "html"]

def inTable (b : Builder) (t : Token) : Result :=
  match t with
  | .char _ =>
    if b.currentIs fosterTargets then
      again .inTableText { b with returnMode := b.mode, tableText := [] }
    else b.fosterInBody t
  | .comment => b.insertComment.done
  | .doctype _ => b.done
  | .startTag tag =>
    let n := tag.name
    let clear := b.closeDownTo tableContext
    if n = "caption" then goTo .inCaption (clear.markFormatting.openTag tag)
    else if n = "colgroup" then goTo .inColumnGroup (clear.openTag tag)
    else if n = "col" then again .inColumnGroup (clear.openImplied "colgroup")
    else if rowGroups.contains n then goTo .inTableBody (clear.openTag tag)
    else if ["td", "th", "tr"].contains n then again .inTableBody (clear.openImplied "tbody")
    else if n = "table" then
      if b.hasInScope .table ["table"] then ((b.closeUpTo ["table"]).resetMode, true) else b.done
    else if ["style", "script", "template"].contains n then (b.headTag tag).done
    else if n = "input" && isHidden tag then (b.insertTag tag).done
    else if n = "form" then
      if b.form?.isSome then b.done
      else
        let b := b.openTag tag
        done { b with form? := b.stack.head? }.pop
    else b.fosterInBody t
  | .endTag n =>
    if n = "table" then
      if b.hasInScope .table ["table"] then (b.closeUpTo ["table"]).resetMode.done else b.done
    else if ("body" :: "html" :: tableParts).contains n then b.done
    else b.fosterInBody t
  | .endOfText => b.inBody t

/-- Characters between the parts of a table. Unless all are blanks they go before the table. -/
def inTableText (b : Builder) (t : Token) : Result :=
  match t with
  | .char c => if c = '\x00' then b.done else done { b with tableText := b.tableText ++ [c] }
  | _ =>
    let text := b.tableText
    let b := { b with tableText := [] }
    let b :=
      if text.all isSpace then text.foldl insertChar b
      else text.foldl (fun b c => (b.fosterInBody (.char c)).1) b
    again b.returnMode b

def inCaption (b : Builder) (t : Token) : Result :=
  let close := fun (b : Builder) => (b.closeElement .table ["caption"] []).clearFormatting
  let leave :=
    if b.hasInScope .table ["caption"] then again .inTable (close b) else b.done
  match t with
  | .startTag tag => if tableParts.contains tag.name then leave else b.inBody t
  | .endTag n =>
    if n = "table" then leave
    else if n = "caption" then
      if b.hasInScope .table ["caption"] then goTo .inTable (close b) else b.done
    else if ("body" :: "html" :: tableParts).contains n then b.done
    else b.inBody t
  | _ => b.inBody t

def inColumnGroup (b : Builder) (t : Token) : Result :=
  let other := if b.currentIs ["colgroup"] then again .inTable b.pop else b.done
  match t with
  | .char c => if isSpace c then (b.insertChar c).done else other
  | .comment => b.insertComment.done
  | .doctype _ => b.done
  | .startTag tag =>
    if tag.name = "html" then (b.mergeRoot tag).done
    else if tag.name = "col" then (b.insertTag tag).done
    else if tag.name = "template" then (b.headTag tag).done
    else other
  | .endTag n =>
    if n = "colgroup" then
      if b.currentIs ["colgroup"] then goTo .inTable b.pop else b.done
    else if n = "col" then b.done
    else other
  | .endOfText => b.inBody t

def inTableBody (b : Builder) (t : Token) : Result :=
  let clear := b.closeDownTo ("tbody" :: "tfoot" :: "thead" :: ["template", "html"])
  let leave := if b.hasInScope .table rowGroups then again .inTable clear.pop else b.done
  match t with
  | .startTag tag =>
    let n := tag.name
    if n = "tr" then goTo .inRow (clear.openTag tag)
    else if n = "td" || n = "th" then again .inRow (clear.openImplied "tr")
    else if tableParts.contains n then leave
    else b.inTable t
  | .endTag n =>
    if rowGroups.contains n then
      if b.hasInScope .table [n] then goTo .inTable clear.pop else b.done
    else if n = "table" then leave
    else if ("body" :: "html" :: tableParts).contains n then b.done
    else b.inTable t
  | _ => b.inTable t

def inRow (b : Builder) (t : Token) : Result :=
  let clear := b.closeDownTo ["tr", "template", "html"]
  let leave := if b.hasInScope .table ["tr"] then again .inTableBody clear.pop else b.done
  match t with
  | .startTag tag =>
    let n := tag.name
    if n = "td" || n = "th" then goTo .inCell (clear.openTag tag).markFormatting
    else if tableParts.contains n then leave
    else b.inTable t
  | .endTag n =>
    if n = "tr" then
      if b.hasInScope .table ["tr"] then goTo .inTableBody clear.pop else b.done
    else if n = "table" then leave
    else if rowGroups.contains n then if b.hasInScope .table [n] then leave else b.done
    else if ("body" :: "html" :: tableParts).contains n then b.done
    else b.inTable t
  | _ => b.inTable t

def inCell (b : Builder) (t : Token) : Result :=
  let close := again .inRow ((b.closeImplied []).closeUpTo ["td", "th"]).clearFormatting
  match t with
  | .startTag tag =>
    if tableParts.contains tag.name then
      if b.hasInScope .table ["td", "th"] then close else b.done
    else b.inBody t
  | .endTag n =>
    if n = "td" || n = "th" then
      if b.hasInScope .table [n] then
        goTo .inRow ((b.closeImplied []).closeUpTo [n]).clearFormatting
      else b.done
    else if ["body", "caption", "col", "colgroup", "html"].contains n then b.done
    else if n = "table" || n = "tr" || rowGroups.contains n then
      if b.hasInScope .table [n] then close else b.done
    else b.inBody t
  | _ => b.inBody t

/-! ## Selections -/

def closeSelect (b : Builder) : Builder :=
  (b.closeUpTo ["select"]).resetMode

def inSelect (b : Builder) : Token → Result
  | .char c => if c = '\x00' then b.done else (b.insertChar c).done
  | .comment => b.insertComment.done
  | .doctype _ => b.done
  | .startTag t =>
    let n := t.name
    let noOption := if b.currentIs ["option"] then b.pop else b
    if n = "html" then (b.mergeRoot t).done
    else if n = "option" then (noOption.openTag t).done
    else if n = "optgroup" then
      ((if noOption.currentIs ["optgroup"] then noOption.pop else noOption).openTag t).done
    else if n = "select" then
      if b.hasInScope .select ["select"] then b.closeSelect.done else b.done
    else if ["input", "keygen", "textarea"].contains n then
      if b.hasInScope .select ["select"] then (b.closeSelect, true) else b.done
    else if n = "script" || n = "template" then (b.headTag t).done
    else b.done
  | .endTag n =>
    if n = "optgroup" then
      let inGroup := (b.stack.drop 1).head?.any (b.isHtml · ["optgroup"])
      let b := if b.currentIs ["option"] && inGroup then b.pop else b
      (if b.currentIs ["optgroup"] then b.pop else b).done
    else if n = "option" then (if b.currentIs ["option"] then b.pop else b).done
    else if n = "select" then
      if b.hasInScope .select ["select"] then b.closeSelect.done else b.done
    else if n = "template" then (b.closeElement .any ["template"] []).done
    else b.done
  | .endOfText => b.done

def leavesSelect : List String :=
  ["caption", "table", "tbody", "tfoot", "thead", "tr", "td", "th"]

def inSelectInTable (b : Builder) (t : Token) : Result :=
  match t with
  | .startTag tag => if leavesSelect.contains tag.name then (b.closeSelect, true) else b.inSelect t
  | .endTag n =>
    if leavesSelect.contains n then
      if b.hasInScope .table [n] then (b.closeSelect, true) else b.done
    else b.inSelect t
  | _ => b.inSelect t

/-! ## After the body -/

def afterBody (b : Builder) (t : Token) : Result :=
  match t with
  | .char c => if isSpace c then b.inBody t else again .inBody b
  | .comment => b.done
  | .doctype _ => b.done
  | .startTag tag => if tag.name = "html" then (b.mergeRoot tag).done else again .inBody b
  | .endTag name => if name = "html" then goTo .afterAfterBody b else again .inBody b
  | .endOfText => b.done

def afterAfterBody (b : Builder) (t : Token) : Result :=
  match t with
  | .char c => if isSpace c then b.inBody t else again .inBody b
  | .comment => b.done
  | .doctype _ => b.done
  | .startTag tag => if tag.name = "html" then (b.mergeRoot tag).done else again .inBody b
  | .endTag _ => again .inBody b
  | .endOfText => b.done

/-- What a token does in the mode that the reader is in. -/
def inMode (b : Builder) : Token → Result :=
  match b.mode with
  | .initial => b.initial
  | .beforeHtml => b.beforeHtml
  | .beforeHead => b.beforeHead
  | .inHead => b.inHead
  | .afterHead => b.afterHead
  | .inBody => b.inBody
  | .text => b.inText
  | .inTable => b.inTable
  | .inTableText => b.inTableText
  | .inCaption => b.inCaption
  | .inColumnGroup => b.inColumnGroup
  | .inTableBody => b.inTableBody
  | .inRow => b.inRow
  | .inCell => b.inCell
  | .inSelect => b.inSelect
  | .inSelectInTable => b.inSelectInTable
  | .afterBody => b.afterBody
  | .afterAfterBody => b.afterAfterBody

end Builder

end PageAudit.Html
