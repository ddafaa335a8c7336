import PageAudit.Cli.Run
import Std.Time.DateTime.Timestamp

/-!
# The command

Looks up what a run may ask about, lets `Program` decide, and then prints, logs and writes.
-/

namespace PageAudit.Command

/-- Looks at a path; nothing if there is nothing. -/
def look (path : String) : IO (Option (String × DiskEntry)) := do
  try
    let found ← IO.FS.realPath path
    let isFile := (← found.metadata).type matches .file
    let bytes? ← try pure (some (← IO.FS.readBinFile path)) catch _ => pure none
    pure (some (path, ⟨.parse found.toString, isFile, bytes?⟩))
  catch _ => pure none

def lookAll (paths : List String) : IO (List (String × DiskEntry)) :=
  paths.filterMapM look

def userDirectories : IO UserDirectories := do
  pure ⟨← IO.getEnv "A11Y_LINT_CONFIG_DIR", ← IO.getEnv "HOME"⟩

def now : IO Timestamp := do
  let nanos := (← Std.Time.Timestamp.now).toNanosecondsSinceUnixEpoch.val
  pure ⟨nanos.fdiv 1000000000, (nanos.fmod 1000000000).toNat⟩

/-- What the request needs from outside. -/
def surroundings (request : Request) : IO Surroundings := do
  let directories ← userDirectories
  match request with
  | .run i =>
    let named ← lookAll i.namedPaths
    let searched ← lookAll (i.searchedPaths (.ofEntries named) directories)
    let stdin ← if i.readsInput then (← IO.getStdin).readBinToEnd else pure .empty
    pure ⟨.ofEntries (named ++ searched), directories, stdin, ← now⟩
  | _ => pure ⟨.ofEntries [], directories, .empty, ← now⟩

/-- Does what the run has come to. -/
def perform (time : Timestamp) (e : Ending) : IO UInt32 := do
  for line in e.log do
    IO.eprintln (time.text ++ " " ++ line.text)
  match e.write? with
  | some (path, text) => IO.FS.writeFile path text
  | none => pure ()
  (← IO.getStdout).putStr e.stdout
  match e.error? with
  | some message => IO.eprintln ("Error: " ++ message)
  | none => pure ()
  pure e.code.toUInt32

def run (args : List String) : IO UInt32 := do
  let request := Request.ofArguments args
  let s ← surroundings request
  perform s.time (Program.answer Html.parse s request)

end PageAudit.Command

def main (args : List String) : IO UInt32 :=
  PageAudit.Command.run args
