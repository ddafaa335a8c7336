import PageAudit.Toml.Value
import PageAudit.Numeral.Reader

/-!
# Strings, numbers and dates in TOML

Strings come in four kinds: with escapes or without, on one line or on several. Numbers, dates and the
names of special values are read from a whole token.
-/

namespace PageAudit.Toml

/-- Spaces and tabs. -/
def isSpace (c : Char) : Bool :=
  c = ' ' || c = '\t'

def skipSpace (cs : List Char) : List Char :=
  cs.dropWhile isSpace

/-- Characters that may stand in a string or a comment: no control character but the tab. -/
def isPlain (c : Char) : Bool :=
  c = '\t' || (0x20 ≤ c.toNat && c.toNat ≠ 0x7F)

/-- A line feed, or a carriage return and a line feed. -/
def newline? : List Char → Option (List Char)
  | '\n' :: rest => some rest
  | '\r' :: '\n' :: rest => some rest
  | _ => none

/-! ## Strings -/

def shortEscape? : Char → Option Char
  | 'b' => some '\x08'
  | 't' => some '\t'
  | 'n' => some '\n'
  | 'f' => some '\x0c'
  | 'r' => some '\r'
  | '"' => some '"'
  | '\\' => some '\\'
  | _ => none

/-- The character with the number that hex digits spell, if it is one. -/
def scalar? (digits : List Char) : Option Char := do
  let n ← Numeral.natural? 16 digits
  if n < 0xD800 || (0xE000 ≤ n && n ≤ 0x10FFFF) then some (.ofNat n) else none

/-- What an escape stands for, after the backslash. -/
def escape? : List Char → Option (Char × List Char)
  | 'u' :: a :: b :: c :: d :: rest => (scalar? [a, b, c, d]).map (·, rest)
  | 'U' :: a :: b :: c :: d :: e :: f :: g :: h :: rest =>
    (scalar? [a, b, c, d, e, f, g, h]).map (·, rest)
  | c :: rest => (shortEscape? c).map (·, rest)
  | [] => none

/-- A string with escapes on one line, after its opening quote. `size` bounds its length. -/
def basic? : Nat → List Char → Option (List Char × List Char)
  | 0, _ => none
  | size + 1, cs =>
    match cs with
    | [] => none
    | '"' :: rest => some ([], rest)
    | '\\' :: rest => do
      let (c, rest) ← escape? rest
      let (text, rest) ← basic? size rest
      some (c :: text, rest)
    | c :: rest =>
      if isPlain c then do
        let (text, rest) ← basic? size rest
        some (c :: text, rest)
      else none

/-- A string without escapes on one line, after its opening quote. -/
def literal? : List Char → Option (List Char × List Char)
  | [] => none
  | '\'' :: rest => some ([], rest)
  | c :: rest =>
    if isPlain c then (literal? rest).map fun (text, rest) => (c :: text, rest) else none

/-- The quotes at the end of a string on several lines: three close it, and one or two before them
belong to it. -/
def closing? (quote : Char) (cs : List Char) : Option (List Char × List Char) :=
  let run := (cs.takeWhile (· = quote)).length
  if 3 ≤ run then
    let inside := min (run - 3) 2
    some (List.replicate inside quote, cs.drop (inside + 3))
  else none

/-- Spaces and line breaks after a backslash at the end of a line. -/
def skipLines : Nat → List Char → List Char
  | 0, cs => cs
  | size + 1, cs =>
    match newline? cs with
    | some rest => skipLines size rest
    | none =>
      match cs with
      | c :: rest => if isSpace c then skipLines size rest else cs
      | [] => []

/-- A string on several lines, after its opening quotes. A line break is a line feed. -/
def multiline? (quote : Char) (escapes : Bool) : Nat → List Char → Option (List Char × List Char)
  | 0, _ => none
  | size + 1, cs =>
    let plain := fun (c : Char) (rest : List Char) =>
      (multiline? quote escapes size rest).map fun (text, rest) => (c :: text, rest)
    match closing? quote cs, newline? cs with
    | some done, _ => some done
    | none, some rest => plain '\n' rest
    | none, none =>
      match cs with
      | [] => none
      | c :: rest =>
        if c = '\\' && escapes then
          match newline? (skipSpace rest) with
          | some rest => multiline? quote escapes size (skipLines size rest)
          | none => (escape? rest).bind fun (c, rest) => plain c rest
        else if isPlain c then plain c rest
        else none

/-- A line break right after the opening quotes does not count. -/
def dropNewline (cs : List Char) : List Char :=
  (newline? cs).getD cs

/-- A string of any kind. -/
def string? (cs : List Char) : Option (String × List Char) :=
  let size := cs.length + 1
  let text := fun (r : List Char × List Char) => (String.ofList r.1, r.2)
  match cs with
  | '"' :: '"' :: '"' :: rest => (multiline? '"' true size (dropNewline rest)).map text
  | '\'' :: '\'' :: '\'' :: rest => (multiline? '\'' false size (dropNewline rest)).map text
  | '"' :: rest => (basic? size rest).map text
  | '\'' :: rest => (literal? rest).map text
  | _ => none

/-! ## Numbers -/

/-- Digits with single underscores between them; the digits. -/
def digits? (base : Nat) : List Char → Option (List Char)
  | [] => none
  | c :: rest =>
    if !Numeral.isDigit base c then none
    else match rest with
      | [] => some [c]
      | '_' :: rest => (digits? base rest).map (c :: ·)
      | d :: rest => (digits? base (d :: rest)).map (c :: ·)

/-- Decimal digits without a leading zero. -/
def decimal? (cs : List Char) : Option (List Char) :=
  (digits? 10 cs).filter fun ds => ds.length = 1 || ds.head? ≠ some '0'

def inRange (n : Int) : Bool :=
  -0x8000000000000000 ≤ n && n ≤ 0x7FFFFFFFFFFFFFFF

def splitSign : List Char → Bool × List Char
  | '-' :: cs => (true, cs)
  | '+' :: cs => (false, cs)
  | cs => (false, cs)

/-- A whole number of 64 bits, in base ten with a sign or in another base without. -/
def integer? (cs : List Char) : Option Int :=
  let inBase := fun (base : Nat) (cs : List Char) =>
    (digits? base cs).map fun ds => (Numeral.ofDigits base ds : Int)
  let value := match cs with
    | '0' :: 'x' :: rest => inBase 16 rest
    | '0' :: 'o' :: rest => inBase 8 rest
    | '0' :: 'b' :: rest => inBase 2 rest
    | _ =>
      let (negative, cs) := splitSign cs
      (decimal? cs).map fun ds =>
        let n : Int := Numeral.ofDigits 10 ds
        if negative then -n else n
  value.filter inRange

def isExponentMark (c : Char) : Bool :=
  c = 'e' || c = 'E'

/-- A number with a point or an exponent, or an infinity or no number by name. One that is too large is
refused. -/
def isFloat (cs : List Char) : Bool :=
  let (negative, unsigned) := splitSign cs
  if unsigned = "inf".toList || unsigned = "nan".toList then true
  else
    let mantissa := unsigned.takeWhile (!isExponentMark ·)
    let whole := mantissa.takeWhile (· ≠ '.')
    let exponentOk := match unsigned.dropWhile (!isExponentMark ·) with
      | [] => mantissa.contains '.'
      | _ :: e => (digits? 10 (splitSign e).2).isSome
    let fractionOk := match mantissa.dropWhile (· ≠ '.') with
      | [] => true
      | _ :: f => (digits? 10 f).isSome
    let finite := match Numeral.float? (unsigned.filter (· ≠ '_')) with
      | some x => negative || x.isFinite
      | none => false
    (decimal? whole).isSome && fractionOk && exponentOk && finite

/-! ## Dates -/

def twoDigits? (a b : Char) : Option Nat :=
  Numeral.natural? 10 [a, b]

def between? (low high : Nat) (a b : Char) : Bool :=
  (twoDigits? a b).any fun n => low ≤ n && n ≤ high

def daysIn (year month : Nat) : Nat :=
  match month with
  | 2 => if year % 4 = 0 && (year % 100 ≠ 0 || year % 400 = 0) then 29 else 28
  | 4 | 6 | 9 | 11 => 30
  | _ => 31

def isDate : List Char → Bool
  | [a, b, c, d, '-', e, f, '-', g, h] =>
    match Numeral.natural? 10 [a, b, c, d], twoDigits? e f with
    | some year, some month => 1 ≤ month && month ≤ 12 && between? 1 (daysIn year month) g h
    | _, _ => false
  | _ => false

/-- An offset from UTC, or nothing where `optional`. -/
def isOffset : List Char → Bool
  | ['Z'] => true
  | ['z'] => true
  | [s, a, b, ':', c, d] => (s = '+' || s = '-') && between? 0 23 a b && between? 0 59 c d
  | _ => false

/-- A time of day; with an offset behind it where `zoned`. -/
def isTime (zoned : Bool) : List Char → Bool
  | a :: b :: ':' :: c :: d :: ':' :: e :: f :: rest =>
    let (fractionOk, rest) := match rest with
      | '.' :: rest => (rest.head?.any Char.isDigit, rest.dropWhile Char.isDigit)
      | rest => (true, rest)
    between? 0 23 a b && between? 0 59 c d && between? 0 60 e f && fractionOk
      && (rest.isEmpty || (zoned && isOffset rest))
  | _ => false

/-- A date, a time, or both with a `T` or a space between. -/
def isDateTime (cs : List Char) : Bool :=
  let divider := fun c : Char => c = 'T' || c = 't' || c = ' '
  isDate cs || isTime false cs
    || (isDate (cs.take 10) && (cs[10]?).any divider && isTime true (cs.drop 11))

/-! ## Tokens -/

def isTokenChar (c : Char) : Bool :=
  c.isAlphanum || c = '+' || c = '-' || c = '.' || c = ':' || c = '_'

/-- The characters of a number, a date or a name. A space after a date joins it to a time. -/
def token (cs : List Char) : List Char × List Char :=
  let (word, rest) := cs.span isTokenChar
  match rest with
  | ' ' :: more =>
    if isDate word && more.head?.any Char.isDigit then
      let (time, rest) := more.span isTokenChar
      (word ++ ' ' :: time, rest)
    else (word, rest)
  | _ => (word, rest)

/-- The value that a token spells. -/
def ofToken? (cs : List Char) : Option Toml :=
  if cs = "true".toList then some (.boolean true)
  else if cs = "false".toList then some (.boolean false)
  else match integer? cs with
    | some n => some (.integer n)
    | none =>
      if isFloat cs then some .float
      else if isDateTime cs then some .date
      else none

end PageAudit.Toml
