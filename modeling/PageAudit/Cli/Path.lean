/-!
# Paths

Paths as the search for a configuration needs them: the parts between the slashes, a parent, the chain
of ancestors, and a name put behind.
-/

namespace PageAudit

structure Path where
  absolute : Bool
  parts : List String
  deriving DecidableEq, Repr, Inhabited

namespace Path

/-- The path that a text spells. Empty parts and dots in the middle are left out; a dot at the start of a
relative path stays. -/
def parse (s : String) : Path :=
  let parts := (s.splitOn "/").filter (· ≠ "")
  if s.startsWith "/" then ⟨true, parts.filter (· ≠ ".")⟩
  else
    match parts with
    | "." :: rest => ⟨false, "." :: rest.filter (· ≠ ".")⟩
    | _ => ⟨false, parts.filter (· ≠ ".")⟩

def text (p : Path) : String :=
  (if p.absolute then "/" else "") ++ "/".intercalate p.parts

def join (p : Path) (name : String) : Path :=
  { p with parts := p.parts ++ [name] }

/-- The path itself and all paths above it, the nearest first. -/
def ancestors (p : Path) : List Path :=
  (List.range (p.parts.length + 1)).reverse.map fun n => { p with parts := p.parts.take n }

/-- The directory that a file on the command line stands in: the current one for a bare name. -/
def directoryOf (p : Path) : Path :=
  let parent := p.parts.dropLast
  if p.parts.isEmpty || (parent.isEmpty && !p.absolute) then ⟨false, ["."]⟩
  else { p with parts := parent }

end Path

end PageAudit
