import PageAudit.Numeral.Digit

/-!
# Character references

A character written by number or by name after an ampersand. The names of the Latin-1 characters may
stand without the closing semicolon; in an attribute value not before a letter, a digit or `=`.
-/

namespace PageAudit.Html

/-- The names of the characters from U+00A0 to U+00FF, in order. -/
def latinNames : List String :=
  ["nbsp", "iexcl", "cent", "pound", "curren", "yen", "brvbar", "sect", "uml", "copy", "ordf",
    "laquo", "not", "shy", "reg", "macr", "deg", "plusmn", "sup2", "sup3", "acute", "micro", "para",
    "middot", "cedil", "sup1", "ordm", "raquo", "frac14", "frac12", "frac34", "iquest", "Agrave",
    "Aacute", "Acirc", "Atilde", "Auml", "Aring", "AElig", "Ccedil", "Egrave", "Eacute", "Ecirc",
    "Euml", "Igrave", "Iacute", "Icirc", "Iuml", "ETH", "Ntilde", "Ograve", "Oacute", "Ocirc",
    "Otilde", "Ouml", "times", "Oslash", "Ugrave", "Uacute", "Ucirc", "Uuml", "Yacute", "THORN",
    "szlig", "agrave", "aacute", "acirc", "atilde", "auml", "aring", "aelig", "ccedil", "egrave",
    "eacute", "ecirc", "euml", "igrave", "iacute", "icirc", "iuml", "eth", "ntilde", "ograve",
    "oacute", "ocirc", "otilde", "ouml", "divide", "oslash", "ugrave", "uacute", "ucirc", "uuml",
    "yacute", "thorn", "yuml"]

/-- Names of markup characters, and names in capitals. -/
def markupNames : List (String × Nat) :=
  [("amp", 0x26), ("AMP", 0x26), ("lt", 0x3C), ("LT", 0x3C), ("gt", 0x3E), ("GT", 0x3E),
    ("quot", 0x22), ("QUOT", 0x22), ("COPY", 0xA9), ("REG", 0xAE)]

/-- Names that need their semicolon. -/
def closedNames : List (String × Nat) :=
  [("apos", 0x27), ("OElig", 0x152), ("oelig", 0x153), ("Scaron", 0x160), ("scaron", 0x161),
    ("Yuml", 0x178), ("fnof", 0x192), ("circ", 0x2C6), ("tilde", 0x2DC), ("ensp", 0x2002),
    ("emsp", 0x2003), ("thinsp", 0x2009), ("zwnj", 0x200C), ("zwj", 0x200D), ("lrm", 0x200E),
    ("rlm", 0x200F), ("ndash", 0x2013), ("mdash", 0x2014), ("lsquo", 0x2018), ("rsquo", 0x2019),
    ("sbquo", 0x201A), ("ldquo", 0x201C), ("rdquo", 0x201D), ("bdquo", 0x201E), ("dagger", 0x2020),
    ("Dagger", 0x2021), ("bull", 0x2022), ("hellip", 0x2026), ("permil", 0x2030), ("prime", 0x2032),
    ("Prime", 0x2033), ("lsaquo", 0x2039), ("rsaquo", 0x203A), ("frasl", 0x2044), ("euro", 0x20AC),
    ("trade", 0x2122), ("larr", 0x2190), ("uarr", 0x2191), ("rarr", 0x2192), ("darr", 0x2193),
    ("harr", 0x2194), ("minus", 0x2212), ("infin", 0x221E), ("asymp", 0x2248), ("ne", 0x2260),
    ("le", 0x2264), ("ge", 0x2265), ("check", 0x2713)]

/-- The character of a name that needs no semicolon. -/
def bareName? (name : String) : Option Char :=
  match latinNames.idxOf? name with
  | some i => some (.ofNat (0xA0 + i))
  | none => (markupNames.find? (·.1 == name)).map fun (_, n) => .ofNat n

def name? (name : String) : Option Char :=
  match bareName? name with
  | some c => some c
  | none => (closedNames.find? (·.1 == name)).map fun (_, n) => .ofNat n

/-- What the numbers from 0x80 to 0x9F stand for: the characters of the Windows code page. -/
def windowsCodes : List Nat :=
  [0x20AC, 0x81, 0x201A, 0x192, 0x201E, 0x2026, 0x2020, 0x2021, 0x2C6, 0x2030, 0x160, 0x2039, 0x152,
    0x8D, 0x17D, 0x8F, 0x90, 0x2018, 0x2019, 0x201C, 0x201D, 0x2022, 0x2013, 0x2014, 0x2DC, 0x2122,
    0x161, 0x203A, 0x153, 0x9D, 0x17E, 0x178]

/-- The character of a number; one that names no character stands for U+FFFD. -/
def numbered (n : Nat) : Char :=
  if n = 0 || 0x10FFFF < n || (0xD800 ≤ n && n < 0xE000) then '\ufffd'
  else if 0x80 ≤ n && n ≤ 0x9F then .ofNat (windowsCodes.getD (n - 0x80) n)
  else .ofNat n

def dropSemicolon : List Char → List Char
  | ';' :: rest => rest
  | rest => rest

/-- A reference by number, after the number sign. -/
def numberReference? (cs : List Char) : Option (Char × List Char) :=
  let (base, cs) := match cs with
    | 'x' :: rest => (16, rest)
    | 'X' :: rest => (16, rest)
    | rest => (10, rest)
  let (digits, rest) := cs.span (Numeral.isDigit base)
  (Numeral.natural? base digits).map fun n => (numbered n, dropSemicolon rest)

/-- The longest beginning of `word`, of at most `size` characters, that is a name and needs no
semicolon. -/
def barePart? (word : List Char) : Nat → Option (Char × Nat)
  | 0 => none
  | size + 1 =>
    match bareName? (.ofList (word.take (size + 1))) with
    | some c => some (c, size + 1)
    | none => barePart? word size

/-- A reference by name, after the ampersand. -/
def nameReference? (inValue : Bool) (cs : List Char) : Option (Char × List Char) :=
  let (word, rest) := cs.span Char.isAlphanum
  match rest, name? (.ofList word) with
  | ';' :: rest, some c => some (c, rest)
  | _, _ =>
    (barePart? word word.length).bind fun (c, size) =>
      let rest := cs.drop size
      if inValue && rest.head?.any (fun c => c.isAlphanum || c = '=') then none else some (c, rest)

/-- A reference, after the ampersand. -/
def reference? (inValue : Bool) : List Char → Option (Char × List Char)
  | '#' :: rest => numberReference? rest
  | cs => nameReference? inValue cs

/-- A text with its references replaced. `size` bounds its length. -/
def decodeUpTo (inValue : Bool) : Nat → List Char → List Char
  | 0, cs => cs
  | _, [] => []
  | size + 1, c :: rest =>
    if c = '&' then
      match reference? inValue rest with
      | some (c, rest) => c :: decodeUpTo inValue size rest
      | none => c :: decodeUpTo inValue size rest
    else c :: decodeUpTo inValue size rest

def decode (inValue : Bool) (cs : List Char) : List Char :=
  decodeUpTo inValue cs.length cs

end PageAudit.Html
