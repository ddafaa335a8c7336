import PageAudit.Cli.Path
import PageAudit.Log

/-!
# Finding the configuration

A path given by hand comes first. Then the nearest directory at or above the audited file that holds a
configuration counts, then the user's own configuration, then the defaults.
-/

namespace PageAudit

inductive ConfigSource where
  /-- Given on the command line, as it was spelled. -/
  | explicit (path : String)
  /-- Found at or above the audited file. -/
  | project (path : Path)
  /-- The user's own. -/
  | global (path : Path)
  | default
  deriving DecidableEq, Repr

namespace ConfigSource

/-- The names of a project's configuration, the preferred one first. -/
def projectNames : List String := ["a11y-lint.toml", ".a11y-lint.toml"]

def globalName : String := "config.toml"

/-- The configuration in one directory. -/
def inDirectory? (isFile : Path → Bool) (directory : Path) : Option Path :=
  (projectNames.map directory.join).find? isFile

/-- The configuration in the nearest of the directories from `start` up. -/
def nearest? (isFile : Path → Bool) (start : Path) : Option Path :=
  start.ancestors.findSome? (inDirectory? isFile)

/-- Where the configuration comes from. -/
def find (isFile : Path → Bool) (start : Path) (explicit? : Option String)
    (globalDirectory? : Option Path) : ConfigSource :=
  match explicit? with
  | some path => .explicit path
  | none =>
    match nearest? isFile start with
    | some path => .project path
    | none =>
      match globalDirectory? with
      | some directory =>
        let candidate := directory.join globalName
        if isFile candidate then .global candidate else .default
      | none => .default

/-- The paths that `find` may ask about. -/
def candidates (start : Path) (globalDirectory? : Option Path) : List Path :=
  start.ancestors.flatMap (fun directory => projectNames.map directory.join)
    ++ globalDirectory?.toList.map (·.join globalName)

/-- The path to read, as it is shown. -/
def path? : ConfigSource → Option String
  | explicit path => some path
  | project path => some path.text
  | global path => some path.text
  | default => none

/-- What is logged about the source. -/
def log : ConfigSource → List LogLine
  | project path => [⟨.debug, "Found project config: " ++ path.text⟩]
  | global path =>
    [⟨.debug, "Found global config: " ++ path.text⟩, ⟨.info, "Using global config: " ++ path.text⟩]
  | _ => []

end ConfigSource

/-- Where users keep their own configuration. -/
structure UserDirectories where
  /-- The directory set for this program. -/
  config? : Option String := none
  home? : Option String := none

namespace UserDirectories

/-- The directory set for this program, or else a hidden one in the home directory. -/
def global? (u : UserDirectories) : Option Path :=
  match u.config? with
  | some directory => some (.parse directory)
  | none => u.home?.map fun home => (Path.parse home).join ".a11y-lint"

end UserDirectories

end PageAudit
