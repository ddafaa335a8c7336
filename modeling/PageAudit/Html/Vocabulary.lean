import PageAudit.Html.Draft
import PageAudit.Html.Token

/-!
# The vocabulary of HTML

Which elements are special to the reader, which close by themselves, where a search among the open
elements ends, and which doctypes ask for the layout of old pages.
-/

namespace PageAudit.Html

def headings : List String := ["h1", "h2", "h3", "h4", "h5", "h6"]

/-- Elements with rules of their own; a closing tag of another kind does not reach through them. -/
def specialTags : List String :=
  ["address", "applet", "area", "article", "aside", "base", "basefont", "bgsound", "blockquote",
    "body", "br", "button", "caption", "center", "col", "colgroup", "dd", "details", "dir", "div",
    "dl", "dt", "embed", "fieldset", "figcaption", "figure", "footer", "form", "frame", "frameset",
    "h1", "h2", "h3", "h4", "h5", "h6", "head", "header", "hgroup", "hr", "html", "iframe", "img",
    "input", "isindex", "li", "link", "listing", "main", "marquee", "menu", "meta", "nav", "noembed",
    "noframes", "noscript", "object", "ol", "p", "param", "plaintext", "pre", "script", "section",
    "select", "source", "style", "summary", "table", "tbody", "td", "template", "textarea", "tfoot",
    "th", "thead", "title", "tr", "track", "ul", "wbr", "xmp"]

/-- Elements of other languages that hold HTML. -/
def hostTags : List (Space × String) :=
  [(.math, "mi"), (.math, "mo"), (.math, "mn"), (.math, "ms"), (.math, "mtext"),
    (.math, "annotation-xml"), (.svg, "foreignobject"), (.svg, "desc"), (.svg, "title")]

def isSpecial (name : Space × String) : Bool :=
  (name.1 = .html && specialTags.contains name.2) || hostTags.contains name

/-- Elements that are opened anew when a block between their tags begins or ends. -/
def formattingTags : List String :=
  ["a", "b", "big", "code", "em", "font", "i", "nobr", "s", "small", "strike", "strong", "tt", "u"]

/-- Elements that end when their parent does. -/
def impliedEndTags : List String :=
  ["dd", "dt", "li", "optgroup", "option", "p", "rb", "rp", "rt", "rtc"]

/-- Blocks: they close an open paragraph. -/
def blockTags : List String :=
  ["address", "article", "aside", "blockquote", "center", "details", "dialog", "dir", "div", "dl",
    "fieldset", "figcaption", "figure", "footer", "header", "hgroup", "main", "menu", "nav", "ol",
    "p", "section", "summary", "ul"]

/-- Elements that belong into the head. -/
def headTags : List String :=
  ["base", "basefont", "bgsound", "link", "meta", "noframes", "script", "style", "template", "title"]

def rowGroups : List String := ["tbody", "tfoot", "thead"]

/-- Tags that begin a part of a table. -/
def tableParts : List String :=
  ["caption", "col", "colgroup", "tbody", "td", "tfoot", "th", "thead", "tr"]

/-! ## Scopes -/

/-- How far up a search among the open elements goes. -/
inductive Scope where
  | any
  | listItem
  | button
  | table
  | select
  deriving DecidableEq

def scopeTags : List String :=
  ["applet", "caption", "html", "table", "td", "th", "marquee", "object", "template"]

/-- The search does not go past such an element. -/
def Scope.endsAt (s : Scope) (name : Space × String) : Bool :=
  let html := name.1 = .html
  let common := (html && scopeTags.contains name.2) || hostTags.contains name
  match s with
  | any => common
  | listItem => common || (html && (name.2 = "ol" || name.2 = "ul"))
  | button => common || (html && name.2 = "button")
  | table => html && ["html", "table", "template"].contains name.2
  | select => !(html && (name.2 = "optgroup" || name.2 = "option"))

/-! ## Other languages inside a page -/

/-- Tags that end SVG or mathematics. -/
def breakoutTags : List String :=
  ["b", "big", "blockquote", "body", "br", "center", "code", "dd", "div", "dl", "dt", "em", "embed",
    "h1", "h2", "h3", "h4", "h5", "h6", "head", "hr", "i", "img", "li", "listing", "menu", "meta",
    "nobr", "ol", "p", "pre", "ruby", "s", "small", "span", "strong", "strike", "sub", "sup", "table",
    "tt", "u", "ul", "var"]

/-- Attributes that are named without their marker in other languages. -/
def markedNames : List (String × String) :=
  [("xlink:actuate", "actuate"), ("xlink:arcrole", "arcrole"), ("xlink:href", "href"),
    ("xlink:role", "role"), ("xlink:show", "show"), ("xlink:title", "title"), ("xlink:type", "type"),
    ("xml:lang", "lang"), ("xml:space", "space"), ("xmlns:xlink", "xlink")]

def unmarked (attributes : List Attribute) : List Attribute :=
  attributes.map fun a =>
    match markedNames.find? (·.1 == a.name) with
    | some (_, name) => { a with name := name }
    | none => a

/-! ## Old pages -/

/-- Public identifiers that begin like this ask for the old layout. -/
def oldPublicIds : List String :=
  ["+//silmaril//dtd html pro v0r11 19970101//",
    "-//advasoft ltd//dtd html 3.0 aswedit + extensions//", "-//as//dtd html 3.0 aswedit + extensions//",
    "-//ietf//dtd html", "-//metrius//dtd metrius presentational//",
    "-//microsoft//dtd internet explorer", "-//netscape comm. corp.//dtd html//",
    "-//netscape comm. corp.//dtd strict html//", "-//o'reilly and associates//dtd html",
    "-//softquad software//dtd hotmetal pro 6.0::19990601::extensions to html 4.0//",
    "-//softquad//dtd hotmetal pro 4.0::19971010::extensions to html 4.0//",
    "-//spyglass//dtd html 2.0 extended//", "-//sq//dtd html 2.0 hotmetal + extensions//",
    "-//sun microsystems corp.//dtd hotjava html//",
    "-//sun microsystems corp.//dtd hotjava strict html//", "-//w3c//dtd html 3",
    "-//w3c//dtd html 4.0 frameset//", "-//w3c//dtd html 4.0 transitional//",
    "-//w3c//dtd html experimental", "-//w3c//dtd w3 html//", "-//w3o//dtd w3 html 3.0//",
    "-//webtechs//dtd mozilla html"]

/-- Public identifiers that ask for it unless a system identifier follows. -/
def frameIds : List String :=
  ["-//w3c//dtd html 4.01 frameset//", "-//w3c//dtd html 4.01 transitional//"]

def isOldPage (d : Doctype) : Bool :=
  let publicId := ((d.publicId?.getD "").toList.map Char.toLower)
  let systemId := String.ofList ((d.systemId?.getD "").toList.map Char.toLower)
  let begins := fun (s : String) => s.toList.isPrefixOf publicId
  d.malformed || d.name ≠ "html"
    || ["-//w3o//dtd w3 html strict 3.0//en//", "-/w3c/dtd html 4.0 transitional/en", "html"].contains
        (.ofList publicId)
    || systemId = "http://www.ibm.com/data/dtd/v11/ibmxhtml1-transitional.dtd"
    || oldPublicIds.any begins || (d.systemId?.isNone && frameIds.any begins)

end PageAudit.Html
