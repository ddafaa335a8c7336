import PageAudit.Catalogue

/-!
# Arguments

The command line: options, some of which may also stand before the command, a command, and what the
command is about. An option with a value takes the next argument, or what follows an equals sign, or, if
it is a single letter, what follows the letter.
-/

namespace PageAudit

/-! ## Options in general -/

structure OptionSpec where
  long : String
  short? : Option Char := none
  takesValue : Bool := false

/-- One argument, or an option with its value. -/
inductive Argument where
  | option (name : String) (value : String)
  | flag (name : String)
  | word (text : String)
  deriving DecidableEq

namespace Argument

/-- An argument that looks like an option is no value; a lone dash is one. -/
def isValue (s : String) : Bool :=
  !s.startsWith "-" || s == "-"

/-- Splits `name=value`. -/
def splitEquals (cs : List Char) : String × Option String :=
  match cs.span (· ≠ '=') with
  | (name, _ :: value) => (.ofList name, some (.ofList value))
  | (name, []) => (.ofList name, none)

/-- An option by its long name, and the arguments behind it. -/
def long? (specs : List OptionSpec) (cs : List Char) (rest : List String) :
    Option (Argument × List String) :=
  let (name, value?) := splitEquals cs
  match specs.find? (·.long == name), value?, rest with
  | none, _, _ => none
  | some spec, some value, rest => if spec.takesValue then some (.option name value, rest) else none
  | some spec, none, rest =>
    if !spec.takesValue then some (.flag name, rest)
    else match rest with
      | value :: rest => if isValue value then some (.option name value, rest) else none
      | [] => none

/-- Options by their letters in a row; the last may have a value. -/
def shorts? (specs : List OptionSpec) (rest : List String) :
    List Char → Option (List Argument × List String)
  | [] => some ([], rest)
  | c :: cs =>
    match specs.find? (·.short? == some c) with
    | none => none
    | some spec =>
      if !spec.takesValue then
        (shorts? specs rest cs).map fun (found, rest) => (.flag spec.long :: found, rest)
      else match cs, rest with
        | '=' :: value, rest => some ([.option spec.long (.ofList value)], rest)
        | _ :: _, rest => some ([.option spec.long (.ofList cs)], rest)
        | [], value :: rest =>
          if isValue value then some ([.option spec.long value], rest) else none
        | [], [] => none

/-- The arguments read from the front of a list, and the rest of it. -/
def next? (specs : List OptionSpec) : List String → Option (List Argument × List String)
  | [] => none
  | arg :: rest =>
    match arg.toList with
    | '-' :: '-' :: name => (long? specs name rest).map fun (a, rest) => ([a], rest)
    | '-' :: c :: cs => shorts? specs rest (c :: cs)
    | _ => some ([.word arg], rest)

/-- Reads all arguments, at most `size` steps; behind two dashes there are only words. Reading stops
behind a word if `commands`, and behind a flag in `halts`. -/
def readUpTo (specs : List OptionSpec) (commands : Bool) (halts : List String) :
    Nat → List String → Option (List Argument × List String)
  | 0, _ => none
  | _, [] => some ([], [])
  | size + 1, args =>
    if args.head? = some "--" then
      if commands then none else some ((args.drop 1).map .word, [])
    else
      match next? specs args with
      | none => none
      | some (found, rest) =>
        let stops := found.any fun
          | .word _ => commands
          | .flag name => halts.contains name
          | .option .. => false
        if stops then some (found, rest)
        else (readUpTo specs commands halts size rest).map fun (more, rest) => (found ++ more, rest)

def read (specs : List OptionSpec) (commands : Bool) (halts : List String) (args : List String) :
    Option (List Argument × List String) :=
  readUpTo specs commands halts (args.length + 1) args

def name? : Argument → Option String
  | option name _ => some name
  | flag name => some name
  | word _ => none

/-- The values of an option. -/
def valuesOf (name : String) (found : List Argument) : List String :=
  found.filterMap fun
    | option n value => if n == name then some value else none
    | _ => none

def words (found : List Argument) : List String :=
  found.filterMap fun
    | word text => some text
    | _ => none

def has (found : List Argument) (name : String) : Bool :=
  found.contains (.flag name)

/-- No option is given twice. -/
def areDistinct (found : List Argument) : Bool :=
  let names := found.filterMap name?
  names.all fun n => names.count n ≤ 1

end Argument

/-! ## The program's command line -/

inductive OutputFormat where
  | text
  | json
  | compact
  deriving DecidableEq, Repr

namespace OutputFormat

def ofName? : String → Option OutputFormat
  | "text" => some text
  | "json" => some json
  | "compact" => some compact
  | _ => none

end OutputFormat

structure CheckOptions where
  /-- The file to audit, or a dash for standard input. -/
  path : String := "-"
  url? : Option String := none
  format : OutputFormat := .text
  preset? : Option Preset := none
  rules? : Option String := none
  failOn? : Option String := none

inductive Command where
  | check (options : CheckOptions)
  | listRules
  | init (force : Bool)

structure Invocation where
  verbose : Bool
  config? : Option String
  command : Command

/-- What the arguments ask for. -/
inductive Request where
  | run (invocation : Invocation)
  | version
  | help
  | invalid

namespace Request

def globalSpecs : List OptionSpec :=
  [⟨"verbose", some 'v', false⟩, ⟨"config", some 'c', true⟩, ⟨"help", some 'h', false⟩]

def topSpecs : List OptionSpec :=
  globalSpecs ++ [⟨"version", some 'V', false⟩]

def checkSpecs : List OptionSpec :=
  globalSpecs ++ [⟨"url", none, true⟩, ⟨"format", some 'f', true⟩, ⟨"preset", none, true⟩,
    ⟨"rules", none, true⟩, ⟨"fail-on", none, true⟩]

def initSpecs : List OptionSpec :=
  globalSpecs ++ [⟨"force", none, false⟩]

def commandNames : List String := ["check", "list-rules", "init", "help"]

/-- A value that has to be understood: none if it is missing, and no result if it is not. -/
def valueOf? {α : Type} (found : List Argument) (name : String) (read : String → Option α) :
    Option (Option α) :=
  match Argument.valuesOf name found with
  | [] => some none
  | value :: _ => (read value).map some

/-- A path may not be empty. -/
def pathText? (s : String) : Option String :=
  if s.isEmpty then none else some s

def checkCommand? (found : List Argument) : Option Command := do
  let path ← match Argument.words found with
    | [] => some "-"
    | [path] => pathText? path
    | _ => none
  let url? ← valueOf? found "url" some
  let format? ← valueOf? found "format" OutputFormat.ofName?
  let preset? ← valueOf? found "preset" Preset.ofName?
  let rules? ← valueOf? found "rules" some
  let failOn? ← valueOf? found "fail-on" some
  some (.check ⟨path, url?, format?.getD .text, preset?, rules?, failOn?⟩)

/-- The options of a command, and the command that they make. -/
def commandOf (name : String) : List OptionSpec × (List Argument → Option Command) :=
  match name with
  | "check" => (checkSpecs, checkCommand?)
  | "init" => (initSpecs, fun found =>
      if (Argument.words found).isEmpty then some (.init (Argument.has found "force")) else none)
  | _ => (globalSpecs, fun found =>
      if (Argument.words found).isEmpty then some .listRules else none)

/-- The request for a command: `before` are the arguments in front of its name. Help is given only if
nothing is wrong before it is asked for. -/
def ofCommand (before : List Argument) (name : String) (args : List String) : Request :=
  let (specs, command?) := commandOf name
  match Argument.read specs false ["help"] args with
  | none => .invalid
  | some (found, _) =>
    match command? found, valueOf? found "config" pathText?, valueOf? before "config" pathText? with
    | some command, some config?, some before? =>
      if !Argument.areDistinct found then .invalid
      else if Argument.has found "help" then .help
      else
        let verbose := Argument.has before "verbose" || Argument.has found "verbose"
        .run ⟨verbose, config?.or before?, command⟩
    | _, _, _ => .invalid

/-- The request of a whole command line. -/
def ofArguments (args : List String) : Request :=
  match Argument.read topSpecs true ["help", "version"] args with
  | none => .invalid
  | some (found, rest) =>
    if !Argument.areDistinct found || (valueOf? found "config" pathText?).isNone then .invalid
    else if Argument.has found "help" then .help
    else if Argument.has found "version" then .version
    else
      match Argument.words found with
      | [name] =>
        if !commandNames.contains name then .invalid
        else if name = "help" then
          match rest with
          | [] => .help
          | [about] => if commandNames.contains about then .help else .invalid
          | _ => .invalid
        else ofCommand found name rest
      | _ => .invalid

end Request

end PageAudit
