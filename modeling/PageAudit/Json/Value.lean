/-!
# JSON values

A value keeps what the text says: numbers in their spelling, the members of an object in their order
with repeated names, and strings whose escapes do not add up to a text as such.
-/

namespace PageAudit

inductive Json where
  | null
  | bool (value : Bool)
  | number (spelling : String)
  /-- A string; `none` if it escapes half of a surrogate pair. -/
  | string (content : Option String)
  | array (items : List Json)
  | object (members : List (Option String × Json))
  deriving Inhabited

namespace Json

def str (s : String) : Json := .string (some s)

/-- An object with distinct names. -/
def record (members : List (String × Json)) : Json :=
  .object (members.map fun (name, value) => (some name, value))

end Json

end PageAudit
