import PageAudit.Auditor
import PageAudit.Catalogue
import PageAudit.Config.Reader
import PageAudit.Html.Node
import PageAudit.Report.Text
import PageAudit.Report.Json
import PageAudit.Cli.Arguments
import PageAudit.Cli.ConfigSource
import PageAudit.Cli.Disk

/-!
# The check command

A check loads its configuration, settles the impact at which it fails, chooses the rules and reads the
page, in this order. The first of these that fails ends the run. Otherwise the page is audited, and the
verdict is the exit status. How the text of a page becomes a tree is left to a parser.
-/

namespace PageAudit

inductive CheckError where
  | config (path : String)
  /-- An impact named on the command line. -/
  | unknownImpact (name : String)
  /-- An impact named in the configuration. -/
  | configImpact (cause : ConfigError)
  | unknownPreset (name : String)
  | rules (cause : AuditError)
  | unreadable (path : String)
  | unreadableInput
  | audit (cause : AuditError)
  deriving DecidableEq, Repr

namespace CheckError

def message : CheckError → String
  | config path => "Failed to load config: " ++ path
  | unknownImpact name =>
    "Unknown impact '" ++ name ++ "' (expected minor, moderate, serious or critical)"
  | configImpact cause => cause.message
  | unknownPreset name => "Unknown preset '" ++ name ++ "' in config (expected full or basic)"
  | rules _ => "Failed to build engine"
  | unreadable path => "Failed to read " ++ path
  | unreadableInput => "Failed to read HTML from stdin"
  | audit _ => "Audit failed"

end CheckError

/-- How a run ends: its exit status, what it prints, the error it reports, and its log. -/
structure Ending where
  code : Nat
  stdout : String := ""
  error? : Option String := none
  log : List LogLine := []
  /-- A file to be written. -/
  write? : Option (String × String) := none

/-- What a run gets from outside. -/
structure Surroundings where
  disk : Disk
  directories : UserDirectories
  stdin : ByteArray
  time : Timestamp

namespace Report

/-- What is printed of a report. -/
def rendered (r : Report) : OutputFormat → String
  | .text => r.text
  | .json => r.json ++ "\n"
  | .compact => r.compact

end Report

namespace Check

/-! ## The stages -/

/-- The configuration from its source. -/
def loadConfig (disk : Disk) (source : ConfigSource) : Except CheckError Config :=
  match source.path? with
  | none => .ok {}
  | some path =>
    match disk.text? path with
    | none => .error (.config path)
    | some text => (Config.parse text).mapError fun _ => .config path

/-- The impact at which the run fails: from the command line, or else from the configuration. -/
def threshold (failOn? : Option String) (c : Config) : Except CheckError Impact :=
  match failOn? with
  | some name =>
    match Impact.ofName? name with
    | some impact => .ok impact
    | none => .error (.unknownImpact name)
  | none => c.failOnImpact.mapError .configImpact

/-- The preset: from the command line, or else from the configuration, or else all rules. -/
def preset (flag? : Option Preset) (c : Config) : Except CheckError Preset :=
  match flag?, c.preset? with
  | some p, _ => .ok p
  | none, some name =>
    match Preset.ofName? name with
    | some p => .ok p
    | none => .error (.unknownPreset name)
  | none, none => .ok .full

/-- The rules to run, and the ids that name none: a selection by id comes before any preset. -/
def chooseRules (o : CheckOptions) (c : Config) : Except CheckError (List Rule × List String) :=
  match o.rules? with
  | some ids =>
    let s := Selection.ofIds ((Text.parts ',' ids).map Text.trim)
    .ok (s.chosen, s.unknown)
  | none => (preset o.preset? c).map fun p => (p.rules, [])

/-- The text of the page, and the name it goes by. -/
def readPage (s : Surroundings) (path : String) : Except CheckError (String × String) :=
  if path = "-" then
    match String.fromUTF8? s.stdin with
    | some text => .ok (text, "stdin")
    | none => .error .unreadableInput
  else
    match s.disk.text? path with
    | some text => .ok (text, path)
    | none => .error (.unreadable path)

/-! ## The run -/

/-- The directory of the page: for standard input, the current one. -/
def pageDirectory (path : String) : Path :=
  if path = "-" then ⟨false, ["."]⟩ else (Path.parse path).directoryOf

/-- Where the search for a configuration starts: in the directory of the page, by its absolute path if
there is such a directory. -/
def searchStart (disk : Disk) (path : String) : Path :=
  let directory := pageDirectory path
  (disk.canonical? directory.text).getD directory

def source (s : Surroundings) (path : String) (explicit? : Option String) : ConfigSource :=
  .find (fun p => s.disk.isFile p.text) (searchStart s.disk path) explicit? s.directories.global?

def failed (log : List LogLine) (e : CheckError) : Ending :=
  { code := 1, error? := some e.message, log := log }

def unknownRules (ids : List String) : List LogLine :=
  ids.map fun id => ⟨.warn, "Unknown rule: " ++ id⟩

def starting (url : String) (count : Nat) : LogLine :=
  ⟨.info, "Auditing " ++ url ++ " with " ++ toString count ++ " rules"⟩

/-- The verdict: 1 if a violation has at least the impact that was settled. -/
def exitCode (r : Report) (impact : Impact) : Nat :=
  if r.hasViolationsAt impact then 1 else 0

/-- A whole check. -/
def run (parse : Html.Parser) (s : Surroundings) (config? : Option String) (o : CheckOptions) :
    Ending :=
  let src := source s o.path config?
  match loadConfig s.disk src with
  | .error e => failed src.log e
  | .ok c =>
    match threshold o.failOn? c with
    | .error e => failed src.log e
    | .ok impact =>
      match chooseRules o c with
      | .error e => failed src.log e
      | .ok (rules, unknown) =>
        let log := src.log ++ unknownRules unknown
        match Auditor.ofRules rules c with
        | .error e => failed log (.rules e)
        | .ok a =>
          match readPage s o.path with
          | .error e => failed log e
          | .ok (html, name) =>
            let url := o.url?.getD name
            let log := log ++ [starting url a.rules.length]
            match a.audit (.ofParsed (parse html)) url s.time with
            | .error e => failed log (.audit e)
            | .ok audited =>
              { code := exitCode audited.report impact
                stdout := audited.report.rendered o.format
                log := log ++ audited.log }

end Check

end PageAudit
