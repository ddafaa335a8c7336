import PageAudit.Text.Words
import PageAudit.Text.Case
import PageAudit.Numeral.Digit

/-!
# Colours

Colours with three channels of eight bits, and the notations that simple inline styles use for them:
six hex digits after a number sign, the `rgb` function of three numbers, and eight names.
-/

namespace PageAudit

structure Rgb where
  red : UInt8
  green : UInt8
  blue : UInt8
  deriving DecidableEq, Repr, Inhabited

namespace Rgb

/-- A number sign and two lower-case hex digits for each channel. -/
def text (c : Rgb) : String :=
  .ofList ('#' :: [c.red, c.green, c.blue].flatMap fun x => Numeral.hex x.toNat 2)

/-- Six hex digits. -/
def ofHex? : List Char → Option Rgb
  | [a, b, c, d, e, f] => do
    let red ← Numeral.natural? 16 [a, b]
    let green ← Numeral.natural? 16 [c, d]
    let blue ← Numeral.natural? 16 [e, f]
    some ⟨.ofNat red, .ofNat green, .ofNat blue⟩
  | _ => none

/-- A channel between commas: a number up to 255 with blanks around it. -/
def channel? (cs : List Char) : Option UInt8 :=
  (Numeral.upTo? 255 (Text.trimmed cs)).map .ofNat

/-- Three channels between commas, and the closing parenthesis. -/
def ofArguments? (cs : List Char) : Option Rgb :=
  if cs.getLast? = some ')' then
    match (Text.partsOf (· == ',') cs.dropLast).map channel? with
    | [some red, some green, some blue] => some ⟨red, green, blue⟩
    | _ => none
  else none

def ofName? : String → Option Rgb
  | "black" => some ⟨0, 0, 0⟩
  | "white" => some ⟨255, 255, 255⟩
  | "red" => some ⟨255, 0, 0⟩
  | "green" => some ⟨0, 128, 0⟩
  | "blue" => some ⟨0, 0, 255⟩
  | "yellow" => some ⟨255, 255, 0⟩
  | "gray" => some ⟨128, 128, 128⟩
  | "grey" => some ⟨128, 128, 128⟩
  | _ => none

/-- A colour in any of the notations, in either case and with blanks around it. -/
def parse? (s : String) : Option Rgb :=
  let cs := (Text.trimmed s.toList).map Char.toLower
  match cs with
  | '#' :: digits => ofHex? digits
  | 'r' :: 'g' :: 'b' :: '(' :: arguments => ofArguments? arguments
  | _ => ofName? (.ofList cs)

end Rgb

end PageAudit
