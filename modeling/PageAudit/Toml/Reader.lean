import PageAudit.Toml.Scalar
import PageAudit.Toml.Assembly

/-!
# Reading TOML

A text is a sequence of lines, each with a key and a value, a header, or neither; a value may take
several lines. Lists and inline tables nest at most 79 deep.
-/

namespace PageAudit.Toml

/-! ## Keys -/

def isBareKeyChar (c : Char) : Bool :=
  c.isAlphanum || c = '-' || c = '_'

/-- One part of a key: bare, or a string on one line. -/
def keyPart? (cs : List Char) : Option (String × List Char) :=
  let text := fun (r : List Char × List Char) => (String.ofList r.1, r.2)
  match cs with
  | '"' :: rest => (basic? (cs.length + 1) rest).map text
  | '\'' :: rest => (literal? rest).map text
  | _ =>
    match cs.span isBareKeyChar with
    | ([], _) => none
    | (word, rest) => some (String.ofList word, rest)

/-- The parts of a key between dots, with spaces around each, at most `size` of them. -/
def key? : Nat → List Char → Option (List String × List Char)
  | 0, _ => none
  | size + 1, cs => do
    let (part, rest) ← keyPart? (skipSpace cs)
    match skipSpace rest with
    | '.' :: rest => do
      let (parts, rest) ← key? size rest
      some (part :: parts, rest)
    | rest => some ([part], rest)

/-- A key has fewer than 80 parts. -/
def maxParts : Nat := 79

/-! ## Values -/

/-- A comment up to the end of its line. -/
def comment? (cs : List Char) : Option (List Char) :=
  let rest := cs.dropWhile isPlain
  if rest.isEmpty || (newline? rest).isSome then some rest else none

/-- Spaces, line breaks and comments, as they may stand in a list. -/
def skipFiller : Nat → List Char → Option (List Char)
  | 0, cs => some cs
  | size + 1, cs =>
    match skipSpace cs with
    | '#' :: rest => (comment? rest).bind (skipFiller size)
    | rest =>
      match newline? rest with
      | some rest => skipFiller size rest
      | none => some rest

/-- Splits a key into the path to a table and the key in that table. -/
def splitKey (parts : List String) : List String × String :=
  (parts.dropLast, parts.getLast?.getD "")

mutual

/-- A value in lists and inline tables at most `depth` deep. `size` bounds the number of steps. -/
def value? (depth : Nat) : Nat → List Char → Option (Toml × List Char)
  | 0, _ => none
  | size + 1, cs =>
    match cs with
    | '"' :: _ => (string? cs).map fun (s, rest) => (.string s, rest)
    | '\'' :: _ => (string? cs).map fun (s, rest) => (.string s, rest)
    | '[' :: rest =>
      if depth = 0 then none
      else (items? (depth - 1) size rest).map fun (xs, rest) => (.array xs, rest)
    | '\x7b' :: rest =>
      if depth = 0 then none
      else
        match skipSpace rest with
        | '\x7d' :: rest => some (.table [], rest)
        | rest =>
          (members? (depth - 1) size rest).bind fun (ms, rest) =>
            (Entries.insertAll? [] ms).map fun t => (.table (finishEntries t), rest)
    | _ =>
      let (word, rest) := token cs
      (ofToken? word).map (·, rest)
termination_by structural size => size

/-- The items of a list up to its closing bracket; a comma may stand behind the last. -/
def items? (depth : Nat) : Nat → List Char → Option (List Toml × List Char)
  | 0, _ => none
  | size + 1, cs =>
    (skipFiller size cs).bind fun cs =>
      match cs with
      | ']' :: rest => some ([], rest)
      | _ =>
        (value? depth size cs).bind fun (x, rest) =>
          (skipFiller size rest).bind fun rest =>
            match rest with
            | ']' :: rest => some ([x], rest)
            | ',' :: rest => (items? depth size rest).map fun (xs, rest) => (x :: xs, rest)
            | _ => none
termination_by structural size => size

/-- The members of an inline table up to its closing brace, at least one, on one line. -/
def members? (depth : Nat) :
    Nat → List Char → Option (List (List String × String × Toml) × List Char)
  | 0, _ => none
  | size + 1, cs =>
    (member? depth size cs).bind fun (m, rest) =>
      match skipSpace rest with
      | '\x7d' :: rest => some ([m], rest)
      | ',' :: rest => (members? depth size rest).map fun (ms, rest) => (m :: ms, rest)
      | _ => none
termination_by structural size => size

/-- A key and its value. -/
def member? (depth : Nat) : Nat → List Char → Option ((List String × String × Toml) × List Char)
  | 0, _ => none
  | size + 1, cs =>
    (key? maxParts cs).bind fun (parts, rest) =>
      match rest with
      | '=' :: rest =>
        (value? depth size (skipSpace rest)).map fun (v, rest) =>
          let (path, key) := splitKey parts
          ((path, key, v), rest)
      | _ => none
termination_by structural size => size

end

/-! ## Lines -/

inductive Line where
  | blank
  | value (path : List String) (key : String) (v : Toml)
  | header (repeated : Bool) (path : List String) (key : String)

def maxDepth : Nat := 79

/-- A header after its opening bracket. -/
def header? (cs : List Char) : Option (Line × List Char) :=
  let (repeated, cs) := match cs with
    | '[' :: rest => (true, rest)
    | rest => (false, rest)
  (key? maxParts cs).bind fun (parts, rest) =>
    let (path, key) := splitKey parts
    match repeated, rest with
    | false, ']' :: rest => some (.header false path key, rest)
    | true, ']' :: ']' :: rest => some (.header true path key, rest)
    | _, _ => none

/-- What a line says, before its comment. -/
def line? (cs : List Char) : Option (Line × List Char) :=
  match skipSpace cs with
  | [] => some (.blank, [])
  | '[' :: rest => header? rest
  | c :: rest =>
    if c = '#' || c = '\n' || c = '\r' then some (.blank, c :: rest)
    else (member? maxDepth (4 * cs.length + 4) (c :: rest)).map fun ((path, key, v), rest) =>
      (.value path key v, rest)

/-- The end of a line: spaces, a comment, and a line break or the end of the text. -/
def lineEnd? (cs : List Char) : Option (List Char) :=
  let finish := fun (cs : List Char) => if cs.isEmpty then some [] else newline? cs
  match skipSpace cs with
  | '#' :: rest => (comment? rest).bind finish
  | rest => finish rest

/-- All lines, at most `size` of them. -/
def lines? : Nat → List Char → Option (List Line)
  | 0, _ => none
  | size + 1, cs =>
    if cs.isEmpty then some []
    else do
      let (line, rest) ← line? cs
      let rest ← lineEnd? rest
      let lines ← lines? size rest
      some (line :: lines)

/-- The values before the first header, and the sections. -/
def sectionsOf : List Line → List (List String × String × Toml) × List Section
  | [] => ([], [])
  | .blank :: rest => sectionsOf rest
  | .value path key v :: rest =>
    let (values, sections) := sectionsOf rest
    ((path, key, v) :: values, sections)
  | .header repeated path key :: rest =>
    let (values, sections) := sectionsOf rest
    ([], ⟨path, key, repeated, values⟩ :: sections)

/-- A byte order mark at the start does not count. -/
def dropMark : List Char → List Char
  | '\ufeff' :: rest => rest
  | cs => cs

/-- The table that a text spells. -/
def parse? (s : String) : Option (List (String × Toml)) := do
  let lines ← lines? (s.length + 1) (dropMark s.toList)
  let (values, sections) := sectionsOf lines
  assemble? values sections

end PageAudit.Toml
