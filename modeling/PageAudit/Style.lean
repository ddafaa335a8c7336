import PageAudit.Text.Words
import PageAudit.Text.Case
import PageAudit.Numeral.Reader

/-!
# Inline styles

A `style` attribute is a list of declarations between semicolons. A segment without a colon declares
nothing, and of several declarations of one property the last counts.
-/

namespace PageAudit

structure Declaration where
  property : String
  value : String
  deriving DecidableEq, Repr

abbrev Style := List Declaration

namespace Declaration

def important : List Char := "!important".toList

/-- Blanks off both ends, then one `!important` off the end and the blanks before it. -/
def valueOf (cs : List Char) : List Char :=
  let v := Text.trimmed cs
  if important.isSuffixOf v then
    Text.dropEndWhile Text.isBlank (v.take (v.length - important.length))
  else v

/-- The declaration in one segment, if it has a colon. -/
def ofSegment? (cs : List Char) : Option Declaration :=
  (Text.cutAt ':' cs).map fun (property, value) =>
    ⟨.ofList ((Text.trimmed property).map Char.toLower), .ofList (valueOf value)⟩

end Declaration

namespace Style

def parse (s : String) : Style :=
  (Text.partsOf (· == ';') s.toList).filterMap Declaration.ofSegment?

/-- The value of a property: that of its last declaration. -/
def get? (style : Style) (property : String) : Option String :=
  (style.reverse.find? (·.property == property)).map (·.value)

/-- The font size, where it is a number of pixels. -/
def fontSize? (style : Style) : Option Float := do
  let value := (← style.get? "font-size").toList
  if "px".toList.isSuffixOf value then
    Numeral.float? (Text.trimmed (value.take (value.length - 2)))
  else none

/-- The font weight is bold: by name, or a number of 700 or more. -/
def isBold (style : Style) : Bool :=
  match style.get? "font-weight" with
  | some weight =>
    let weight := Text.lower weight
    weight == "bold" || weight == "bolder"
      || (Numeral.upTo? 65535 weight.toList).any (700 ≤ ·)
  | none => false

end Style

end PageAudit
