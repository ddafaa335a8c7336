/-!
# Letter case

Names of tags, attributes, colours and presets ignore the case of the letters A to Z only. Phrases
are compared in lower case.
-/

namespace PageAudit.Text

/-- Lower-cases A to Z and leaves every other character alone. -/
def lower (s : String) : String :=
  .ofList (s.toList.map Char.toLower)

/-- Equal up to the case of A to Z. -/
def sameName (a b : String) : Bool :=
  lower a == lower b

/-- Lower case as far as a phrase of ASCII letters can tell: A to Z and the Kelvin sign are the only
characters that the full mapping takes into ASCII. -/
def lowerLetter (c : Char) : Char :=
  if c = '\u212A' then 'k' else c.toLower

/-- The text is one of the `phrases` (in lower-case ASCII) whatever its case. -/
def isOneOf (phrases : List String) (s : String) : Bool :=
  phrases.contains (.ofList (s.toList.map lowerLetter))

end PageAudit.Text
