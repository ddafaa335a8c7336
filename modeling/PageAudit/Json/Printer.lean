import PageAudit.Json.Value
import PageAudit.Numeral.Digit

/-!
# Writing JSON

Two spaces for each level, every item and member on a line of its own, nothing between the brackets of
an empty list. Only quotes, backslashes and the control characters below U+0020 are escaped.
-/

namespace PageAudit.Json

def escapeChar (c : Char) : List Char :=
  if c = '"' then ['\\', '"']
  else if c = '\\' then ['\\', '\\']
  else if c.toNat = 0x08 then ['\\', 'b']
  else if c.toNat = 0x09 then ['\\', 't']
  else if c.toNat = 0x0A then ['\\', 'n']
  else if c.toNat = 0x0C then ['\\', 'f']
  else if c.toNat = 0x0D then ['\\', 'r']
  else if c.toNat < 0x20 then '\\' :: 'u' :: Numeral.hex c.toNat 4
  else [c]

def quoted (s : String) : List Char :=
  '"' :: s.toList.flatMap escapeChar ++ ['"']

/-- A line break and the indentation of a level. -/
def newline (level : Nat) : List Char :=
  '\n' :: List.replicate (2 * level) ' '

mutual

/-- The text of a value whose last line stands at `level`. -/
def pretty (level : Nat) : Json → List Char
  | .null => "null".toList
  | .bool value => (if value then "true" else "false").toList
  | .number spelling => spelling.toList
  | .string content => quoted (content.getD "")
  | .array [] => ['[', ']']
  | .array (x :: xs) =>
    '[' :: newline (level + 1) ++ pretty (level + 1) x ++ prettyItems (level + 1) xs
      ++ newline level ++ [']']
  | .object [] => ['\x7b', '\x7d']
  | .object ((name, value) :: ms) =>
    '\x7b' :: newline (level + 1) ++ quoted (name.getD "") ++ [':', ' ']
      ++ pretty (level + 1) value ++ prettyMembers (level + 1) ms ++ newline level ++ ['\x7d']

/-- Further items, each after a comma. -/
def prettyItems (level : Nat) : List Json → List Char
  | [] => []
  | x :: xs => ',' :: newline level ++ pretty level x ++ prettyItems level xs

def prettyMembers (level : Nat) : List (Option String × Json) → List Char
  | [] => []
  | (name, value) :: ms =>
    ',' :: newline level ++ quoted (name.getD "") ++ [':', ' '] ++ pretty level value
      ++ prettyMembers level ms

end

end PageAudit.Json
