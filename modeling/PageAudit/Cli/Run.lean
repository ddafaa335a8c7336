import PageAudit.Cli.Check
import PageAudit.Cli.Listing
import PageAudit.Config.Template
import PageAudit.Html.Reader
import PageAudit.Text.Words

/-!
# The program

From the arguments and the surroundings to the end of the run. Nothing is read or written here; a file
to be written is part of the result.
-/

namespace PageAudit

namespace Init

def fileName : String := "a11y-lint.toml"

/-- What is printed after the file is written. -/
def nextSteps : List String :=
  ["Created " ++ fileName,
   "",
   "Next steps:",
   "  1. Edit " ++ fileName ++ " to choose a preset and disable rules",
   "  2. Run: a11y-lint check index.html"]

/-- Writes a configuration to start from, over an existing one only by `force`. -/
def run (disk : Disk) (force : Bool) : Ending :=
  if disk.isTaken fileName && !force then
    { code := 1
      error? := some ("Configuration file already exists at " ++ fileName
        ++ ". Use --force to overwrite.") }
  else if disk.isTaken fileName && !disk.isFile fileName then
    { code := 1, error? := some ("Failed to write " ++ fileName) }
  else
    { code := 0
      stdout := Text.ofLines nextSteps
      write? := some (fileName, Config.template) }

end Init

namespace Invocation

/-- The paths that the arguments name. -/
def namedPaths (i : Invocation) : List String :=
  match i.command with
  | .check o => o.path :: (Check.pageDirectory o.path).text :: i.config?.toList
  | .listRules => []
  | .init _ => [Init.fileName]

/-- The further paths that a search for the configuration may come to. -/
def searchedPaths (i : Invocation) (disk : Disk) (directories : UserDirectories) : List String :=
  match i.command, i.config? with
  | .check o, none =>
    (ConfigSource.candidates (Check.searchStart disk o.path) directories.global?).map (·.text)
  | _, _ => []

def readsInput (i : Invocation) : Bool :=
  match i.command with
  | .check o => o.path == "-"
  | _ => false

end Invocation

namespace Program

def versionText : String := "a11y-lint 0.1.0\n"

def helpText : String :=
  Text.ofLines
    ["Accessibility checker for HTML documents",
     "",
     "Usage: a11y-lint [OPTIONS] <COMMAND>",
     "",
     "Commands:",
     "  check       Audit an HTML document",
     "  list-rules  List available rules",
     "  init        Initialize configuration file",
     "  help        Print this message or the help of the given subcommand(s)",
     "",
     "Options:",
     "  -v, --verbose          Enable verbose output",
     "  -c, --config <CONFIG>  Path to configuration file",
     "  -h, --help             Print help",
     "  -V, --version          Print version"]

/-- The lines of the log that are shown. -/
def shown (verbose : Bool) (log : List LogLine) : List LogLine :=
  log.filter fun l => verbose || l.level != .debug

def runCommand (parse : Html.Parser) (s : Surroundings) (i : Invocation) : Ending :=
  match i.command with
  | .check options => Check.run parse s i.config? options
  | .listRules => { code := 0, stdout := Listing.text }
  | .init force => Init.run s.disk force

/-- The end of a run for this request. -/
def answer (parse : Html.Parser) (s : Surroundings) : Request → Ending
  | .invalid => { code := 2, error? := some "These arguments ask for nothing. Try --help." }
  | .help => { code := 0, stdout := helpText }
  | .version => { code := 0, stdout := versionText }
  | .run i =>
    let ending := runCommand parse s i
    { ending with log := shown i.verbose ending.log }

/-- The end of a run with these arguments. -/
def run (s : Surroundings) (args : List String) : Ending :=
  answer Html.parse s (.ofArguments args)

end Program

end PageAudit
