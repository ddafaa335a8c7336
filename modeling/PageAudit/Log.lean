/-!
# Log lines

What a run tells about its work apart from its output.
-/

namespace PageAudit

inductive LogLevel where
  | debug
  | info
  | warn
  deriving DecidableEq, Repr

namespace LogLevel

def name : LogLevel → String
  | debug => "DEBUG"
  | info => "INFO"
  | warn => "WARN"

end LogLevel

structure LogLine where
  level : LogLevel
  message : String
  deriving DecidableEq, Repr

namespace LogLine

def text (l : LogLine) : String :=
  l.level.name ++ " " ++ l.message

end LogLine

end PageAudit
