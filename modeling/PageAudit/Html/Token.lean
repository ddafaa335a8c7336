import PageAudit.Document.Basic
import PageAudit.Html.Reference

/-!
# HTML tokens

A text of HTML is a sequence of tags, comments, a doctype and single characters. Each call of `next?`
takes one token off the front. The content of some elements holds no tags; `rawText` splits it off up to
the closing tag.
-/

namespace PageAudit.Html

structure Doctype where
  name : String := ""
  publicId? : Option String := none
  systemId? : Option String := none
  malformed : Bool := false

structure Tag where
  name : String
  attributes : List Attribute := []
  selfClosing : Bool := false

inductive Token where
  | doctype (d : Doctype)
  | startTag (t : Tag)
  | endTag (name : String)
  | comment
  | char (c : Char)
  | endOfText

/-- Tab, line feed, form feed and space; a carriage return does not get this far. -/
def isSpace (c : Char) : Bool :=
  c = '\t' || c = '\n' || c = '\x0c' || c = ' '

def skipSpace (cs : List Char) : List Char :=
  cs.dropWhile isSpace

/-- Line breaks as single line feeds, without a byte order mark. -/
def unifyLines : List Char → List Char
  | [] => []
  | '\r' :: '\n' :: rest => '\n' :: unifyLines rest
  | '\r' :: rest => '\n' :: unifyLines rest
  | c :: rest => c :: unifyLines rest

def prepare (s : String) : List Char :=
  unifyLines (if s.toList.head? = some '\ufeff' then s.toList.drop 1 else s.toList)

/-- A NUL in a name or a value stands for U+FFFD. -/
def noNul (c : Char) : Char :=
  if c = '\x00' then '\ufffd' else c

def nameOf (cs : List Char) : String :=
  .ofList (cs.map fun c => noNul c.toLower)

/-! ## Tags -/

/-- The value of an attribute, after the equals sign and the blanks behind it. None if the text ends in
it. -/
def value? (cs : List Char) : Option (List Char × List Char) :=
  let upTo := fun (quote : Char) (cs : List Char) =>
    match cs.span (· ≠ quote) with
    | (v, _ :: rest) => some (v, rest)
    | (_, []) => none
  match cs with
  | '"' :: rest => upTo '"' rest
  | '\'' :: rest => upTo '\'' rest
  | cs => some (cs.span fun c => !isSpace c && c ≠ '>')

/-- The attributes of a tag and whether it closes itself; after the name. None if the text ends in it. -/
def attributes? : Nat → List Char → Option (List Attribute × Bool × List Char)
  | 0, _ => none
  | size + 1, cs =>
    match skipSpace cs with
    | [] => none
    | '>' :: rest => some ([], false, rest)
    | '/' :: '>' :: rest => some ([], true, rest)
    | '/' :: rest => attributes? size rest
    | c :: rest =>
      let (more, rest) := rest.span fun c => !isSpace c && c ≠ '/' && c ≠ '>' && c ≠ '='
      let name := nameOf (c :: more)
      match skipSpace rest with
      | '=' :: rest => do
        let (value, rest) ← value? (skipSpace rest)
        let (others, selfClosing, rest) ← attributes? size rest
        some (⟨name, .ofList ((decode true value).map noNul)⟩ :: others, selfClosing, rest)
      | rest => do
        let (others, selfClosing, rest) ← attributes? size rest
        some (⟨name, ""⟩ :: others, selfClosing, rest)

/-- Of several attributes with one name the first. -/
def firstOfEach (attributes : List Attribute) : List Attribute :=
  attributes.foldl (fun kept a => if kept.any (·.name == a.name) then kept else kept ++ [a]) []

/-- A tag from its name on. -/
def tag? (cs : List Char) : Option (Tag × List Char) := do
  let (name, rest) := cs.span fun c => !isSpace c && c ≠ '/' && c ≠ '>'
  let (attributes, selfClosing, rest) ← attributes? (cs.length + 1) rest
  some (⟨nameOf name, firstOfEach attributes, selfClosing⟩, rest)

/-! ## Comments and doctypes -/

/-- What follows a comment, after its opening dashes; nothing if it is not closed. -/
def afterComment : List Char → List Char
  | '-' :: '-' :: '>' :: rest => rest
  | '-' :: '-' :: '!' :: '>' :: rest => rest
  | _ :: rest => afterComment rest
  | [] => []

/-- A comment may be closed at once by `>` or `->`. -/
def afterCommentStart : List Char → List Char
  | '>' :: rest => rest
  | '-' :: '>' :: rest => rest
  | cs => afterComment cs

/-- What follows the next `>`. -/
def afterClose (cs : List Char) : List Char :=
  (cs.dropWhile (· ≠ '>')).drop 1

/-- The rest after `word`, whatever its case. -/
def afterWord? (word : String) (cs : List Char) : Option (List Char) :=
  if (cs.take word.length).map Char.toLower = word.toList then some (cs.drop word.length) else none

/-- A quoted identifier; one that is not closed ends at the next `>`. -/
def identifier? (cs : List Char) : Option (String × Bool × List Char) :=
  let quoted := fun (quote : Char) (cs : List Char) =>
    let (id, rest) := cs.span fun c => c ≠ quote && c ≠ '>'
    match rest with
    | c :: more => if c = quote then (String.ofList id, true, more) else (String.ofList id, false, rest)
    | [] => (String.ofList id, false, [])
  match skipSpace cs with
  | '"' :: rest => some (quoted '"' rest)
  | '\'' :: rest => some (quoted '\'' rest)
  | _ => none

/-- The identifiers of a doctype, after its name. -/
def identifiers (name : String) (cs : List Char) : Doctype :=
  let system := fun (cs : List Char) => match identifier? cs with
    | some (id, closed, _) => (some id, !closed)
    | none => (none, false)
  match skipSpace cs with
  | [] => ⟨name, none, none, true⟩
  | '>' :: _ => ⟨name, none, none, false⟩
  | cs =>
    match afterWord? "public" cs, afterWord? "system" cs with
    | some rest, _ =>
      match identifier? rest with
      | some (id, true, rest) =>
        let (systemId?, malformed) := system rest
        ⟨name, some id, systemId?, malformed⟩
      | some (id, false, _) => ⟨name, some id, none, true⟩
      | none => ⟨name, none, none, true⟩
    | none, some rest =>
      match system rest with
      | (some id, malformed) => ⟨name, none, some id, malformed⟩
      | (none, _) => ⟨name, none, none, true⟩
    | none, none => ⟨name, none, none, true⟩

/-- A doctype, after its keyword. -/
def doctypeOf (cs : List Char) : Doctype :=
  match skipSpace cs with
  | [] => ⟨"", none, none, true⟩
  | '>' :: _ => ⟨"", none, none, true⟩
  | cs =>
    let (name, rest) := cs.span fun c => !isSpace c && c ≠ '>'
    identifiers (nameOf name) rest

/-! ## The next token -/

/-- The characters of a section of character data, and what follows it. -/
def characterData : List Char → List Token × List Char
  | ']' :: ']' :: '>' :: rest => ([], rest)
  | c :: rest =>
    let (tokens, rest) := characterData rest
    (.char c :: tokens, rest)
  | [] => ([], [])

/-- The token after an exclamation mark. `inForeign` tells that sections of character data are known. -/
def declaration (inForeign : Bool) (cs : List Char) : List Token × List Char :=
  match cs with
  | '-' :: '-' :: rest => ([.comment], afterCommentStart rest)
  | _ =>
    match afterWord? "doctype" cs with
    | some rest => ([.doctype (doctypeOf rest)], afterClose rest)
    | none =>
      if inForeign && cs.take 7 = "[CDATA[".toList then
        characterData (cs.drop 7)
      else ([.comment], afterClose cs)

/-- The tokens at the front of a text and what follows them; none at its end. A piece of markup that
yields nothing gives no token. -/
def next? (inForeign : Bool) : List Char → Option (List Token × List Char)
  | [] => none
  | '&' :: rest =>
    match reference? false rest with
    | some (c, rest) => some ([.char c], rest)
    | none => some ([.char '&'], rest)
  | '<' :: '!' :: rest => some (declaration inForeign rest)
  | '<' :: '?' :: rest => some ([.comment], afterClose rest)
  | '<' :: '/' :: rest =>
    match rest with
    | [] => some ([.char '<', .char '/'], [])
    | '>' :: rest => some ([], rest)
    | c :: _ =>
      if c.isAlpha then
        match tag? rest with
        | some (t, rest) => some ([.endTag t.name], rest)
        | none => some ([], [])
      else some ([.comment], afterClose rest)
  | '<' :: c :: rest =>
    if c.isAlpha then
      match tag? (c :: rest) with
      | some (t, rest) => some ([.startTag t], rest)
      | none => some ([], [])
    else some ([.char '<'], c :: rest)
  | c :: rest => some ([.char c], rest)

/-! ## Raw text -/

/-- How the content of an element is read. -/
inductive Content where
  /-- Text with references. -/
  | escapable
  /-- Text as it stands. -/
  | raw
  /-- Text as it stands, in which a comment can hide a closing tag. -/
  | script
  /-- The rest of the page. -/
  | plain
  deriving DecidableEq

/-- A tag name up to a blank, a slash or `>`. -/
def startsTag (name : String) (cs : List Char) : Bool :=
  match afterWord? name cs with
  | some (c :: _) => isSpace c || c = '/' || c = '>'
  | _ => false

/-- Splits a text before the closing tag `name`. -/
def untilEndTag (name : String) : List Char → List Char × List Char
  | [] => ([], [])
  | c :: rest =>
    if c = '<' && rest.head? = some '/' && startsTag name (rest.drop 1) then ([], c :: rest)
    else
      let (text, rest) := untilEndTag name rest
      (c :: text, rest)

/-- Where a script stands with respect to comments: outside, in one, or in a script in one. -/
inductive ScriptState where
  | outside
  | commented
  | nested
  deriving DecidableEq

/-- The state of a script at the front of `cs`. -/
def ScriptState.step (s : ScriptState) (cs : List Char) : ScriptState :=
  match s, cs with
  | .outside, '<' :: '!' :: '-' :: '-' :: _ => .commented
  | .commented, '-' :: '-' :: '>' :: _ => .outside
  | .nested, '-' :: '-' :: '>' :: _ => .outside
  | .commented, '<' :: rest => if startsTag "script" rest then .nested else .commented
  | .nested, '<' :: '/' :: rest => if startsTag "script" rest then .commented else .nested
  | s, _ => s

/-- Splits a script before its closing tag. -/
def untilScriptEnd (s : ScriptState) : List Char → List Char × List Char
  | [] => ([], [])
  | c :: rest =>
    if s ≠ .nested && c = '<' && rest.head? = some '/' && startsTag "script" (rest.drop 1) then
      ([], c :: rest)
    else
      let (text, rest) := untilScriptEnd (s.step (c :: rest)) rest
      (c :: text, rest)

/-- The content of an element and what follows it. -/
def rawText (content : Content) (name : String) (cs : List Char) : List Char × List Char :=
  let (text, rest) := match content with
    | .escapable =>
      let (text, rest) := untilEndTag name cs
      (decode false text, rest)
    | .raw => untilEndTag name cs
    | .script => untilScriptEnd .outside cs
    | .plain => (cs, [])
  (text.map noNul, rest)

end PageAudit.Html
