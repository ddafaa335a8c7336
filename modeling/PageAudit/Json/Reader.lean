import PageAudit.Json.Value
import PageAudit.Numeral.Digit

/-!
# Reading JSON

A reader takes a value off the front of a list of characters and leaves the rest. `parse?` wants one
value and nothing after it but blanks.
-/

namespace PageAudit.Json

/-- The four characters that may stand between the tokens. -/
def isSpace (c : Char) : Bool :=
  c = ' ' || c = '\t' || c = '\n' || c = '\r'

def skipSpace (cs : List Char) : List Char :=
  cs.dropWhile isSpace

/-! ## Strings -/

/-- A character as it stands in a string, or one half of a surrogate pair. -/
inductive Piece where
  | char (c : Char)
  | high (n : Nat)
  | low (n : Nat)

/-- The piece that four hex digits escape. -/
def Piece.ofCode (n : Nat) : Piece :=
  if 0xD800 ≤ n && n < 0xDC00 then .high (n - 0xD800)
  else if 0xDC00 ≤ n && n < 0xE000 then .low (n - 0xDC00)
  else .char (.ofNat n)

/-- The text of pieces in a row; none if half of a pair stands alone. -/
def Piece.join? : List Piece → Option (List Char)
  | [] => some []
  | .char c :: rest => (join? rest).map (c :: ·)
  | .high h :: .low l :: rest => (join? rest).map (.ofNat (0x10000 + h * 0x400 + l) :: ·)
  | _ => none

/-- What a backslash before a letter stands for. -/
def shortEscape? : Char → Option Char
  | '"' => some '"'
  | '\\' => some '\\'
  | '/' => some '/'
  | 'b' => some '\x08'
  | 'f' => some '\x0c'
  | 'n' => some '\n'
  | 'r' => some '\r'
  | 't' => some '\t'
  | _ => none

/-- The pieces up to the closing quote. -/
def pieces? : List Char → Option (List Piece × List Char)
  | [] => none
  | '"' :: rest => some ([], rest)
  | '\\' :: 'u' :: a :: b :: c :: d :: rest => do
    let n ← Numeral.natural? 16 [a, b, c, d]
    let (ps, rest) ← pieces? rest
    some (.ofCode n :: ps, rest)
  | '\\' :: c :: rest => do
    let c ← shortEscape? c
    let (ps, rest) ← pieces? rest
    some (.char c :: ps, rest)
  | c :: rest =>
    if c.toNat < 0x20 || c = '\\' then none
    else do
      let (ps, rest) ← pieces? rest
      some (.char c :: ps, rest)

/-- A string after its opening quote. -/
def string? (cs : List Char) : Option (Option String × List Char) := do
  let (ps, rest) ← pieces? cs
  some ((Piece.join? ps).map .ofList, rest)

/-! ## Numbers -/

/-- A run of at least one digit. -/
def digits? (cs : List Char) : Option (List Char × List Char) :=
  match cs.span Char.isDigit with
  | ([], _) => none
  | (ds, rest) => some (ds, rest)

/-- The digits before the point: a zero alone, or digits without a leading zero. -/
def whole? : List Char → Option (List Char × List Char)
  | '0' :: rest => if rest.head?.any Char.isDigit then none else some (['0'], rest)
  | cs => digits? cs

/-- A point and digits, or nothing. -/
def fraction? : List Char → Option (List Char × List Char)
  | '.' :: rest => (digits? rest).map fun (ds, rest) => ('.' :: ds, rest)
  | cs => some ([], cs)

/-- An exponent, or nothing. -/
def exponent? : List Char → Option (List Char × List Char)
  | [] => some ([], [])
  | e :: rest =>
    if e = 'e' || e = 'E' then
      match rest with
      | s :: rest' =>
        if s = '+' || s = '-' then (digits? rest').map fun (ds, rest) => (e :: s :: ds, rest)
        else (digits? rest).map fun (ds, rest) => (e :: ds, rest)
      | [] => none
    else some ([], e :: rest)

/-- The spelling of a number. -/
def number? (cs : List Char) : Option (String × List Char) := do
  let (sign, cs) := match cs with
    | '-' :: rest => (['-'], rest)
    | cs => ([], cs)
  let (w, cs) ← whole? cs
  let (f, cs) ← fraction? cs
  let (e, cs) ← exponent? cs
  some (.ofList (sign ++ w ++ f ++ e), cs)

/-! ## Values -/

/-- The rest of `cs` after `word`. -/
def after? (word : String) (cs : List Char) : Option (List Char) :=
  if word.toList.isPrefixOf cs then some (cs.drop word.length) else none

mutual

/-- A value after blanks, in a text of at most `size` values. -/
def value? : Nat → List Char → Option (Json × List Char)
  | 0, _ => none
  | size + 1, cs =>
    match skipSpace cs with
    | [] => none
    | '"' :: rest => (string? rest).map fun (s, rest) => (.string s, rest)
    | '[' :: rest =>
      match skipSpace rest with
      | ']' :: rest => some (.array [], rest)
      | rest => (items? size rest).map fun (xs, rest) => (.array xs, rest)
    | '\x7b' :: rest =>
      match skipSpace rest with
      | '\x7d' :: rest => some (.object [], rest)
      | rest => (members? size rest).map fun (ms, rest) => (.object ms, rest)
    | c :: rest =>
      if c = 'n' then (after? "ull" rest).map (.null, ·)
      else if c = 't' then (after? "rue" rest).map (.bool true, ·)
      else if c = 'f' then (after? "alse" rest).map (.bool false, ·)
      else (number? (c :: rest)).map fun (n, rest) => (.number n, rest)

/-- Items up to the closing bracket, at least one. -/
def items? : Nat → List Char → Option (List Json × List Char)
  | 0, _ => none
  | size + 1, cs =>
    (value? size cs).bind fun (x, rest) =>
      match skipSpace rest with
      | ']' :: rest => some ([x], rest)
      | ',' :: rest => (items? size rest).map fun (xs, rest) => (x :: xs, rest)
      | _ => none

/-- Members up to the closing brace, at least one. -/
def members? : Nat → List Char → Option (List (Option String × Json) × List Char)
  | 0, _ => none
  | size + 1, cs =>
    match skipSpace cs with
    | '"' :: rest =>
      (string? rest).bind fun (name, rest) =>
        match skipSpace rest with
        | ':' :: rest =>
          (value? size rest).bind fun (x, rest) =>
            match skipSpace rest with
            | '\x7d' :: rest => some ([(name, x)], rest)
            | ',' :: rest => (members? size rest).map fun (ms, rest) => ((name, x) :: ms, rest)
            | _ => none
        | _ => none
    | _ => none

end

/-- The value of a whole text. A text has no more values and lists than characters. -/
def parse? (s : String) : Option Json :=
  match value? (2 * s.length + 2) s.toList with
  | some (v, rest) => if (skipSpace rest).isEmpty then some v else none
  | none => none

end PageAudit.Json
