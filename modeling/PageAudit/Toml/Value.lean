/-!
# TOML values

The values that a configuration text can hold. What a float or a date says is not kept; no setting
wants one.
-/

namespace PageAudit

inductive Toml where
  | string (content : String)
  | integer (value : Int)
  | boolean (value : Bool)
  | float
  | date
  | array (items : List Toml)
  | table (entries : List (String × Toml))
  deriving Inhabited

namespace Toml

def get? (entries : List (String × Toml)) (key : String) : Option Toml :=
  (entries.find? (·.1 == key)).map (·.2)

end Toml

end PageAudit
