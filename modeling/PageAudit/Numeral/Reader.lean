import PageAudit.Numeral.Digit

/-!
# Reading doubles

A decimal with an optional sign, point and exponent, or the name of an infinity or of no number, in
either case. The nearest double is taken, and a number that is too large is an infinity.
-/

namespace PageAudit.Numeral

/-- The parts of a decimal: `digits · 10 ^ exponent`. -/
structure Decimal where
  digits : Nat
  exponent : Int
  deriving Repr, DecidableEq

/-- A whole number with an optional sign. -/
def signed? : List Char → Option Int
  | '-' :: cs => (natural? 10 cs).map fun n => -(n : Int)
  | '+' :: cs => (natural? 10 cs).map Int.ofNat
  | cs => (natural? 10 cs).map Int.ofNat

/-- Digits with at most one point among them, then an optional exponent. -/
def decimal? (cs : List Char) : Option Decimal :=
  let isExponentMark := fun c : Char => c = 'e' || c = 'E'
  let mantissa := cs.takeWhile (!isExponentMark ·)
  let whole := mantissa.takeWhile (· ≠ '.')
  let fraction := (mantissa.dropWhile (· ≠ '.')).drop 1
  let exponent? := match cs.dropWhile (!isExponentMark ·) with
    | [] => some 0
    | _ :: rest => signed? rest
  match natural? 10 (whole ++ fraction), exponent? with
  | some digits, some exponent => some ⟨digits, exponent - fraction.length⟩
  | _, _ => none

/-- The nearest double. An exponent far out of range is settled by the number of digits. -/
def Decimal.toFloat (d : Decimal) : Float :=
  let top : Int := (toString d.digits).length + d.exponent
  if d.digits = 0 || top < -400 then 0.0
  else if 400 < top then 1.0 / 0.0
  else .ofScientific d.digits (d.exponent < 0) d.exponent.natAbs

/-- The double that a text without a sign spells. -/
def unsignedFloat? (cs : List Char) : Option Float :=
  let name := String.ofList (cs.map Char.toLower)
  if name = "inf" || name = "infinity" then some (1.0 / 0.0)
  else if name = "nan" then some (0.0 / 0.0)
  else (decimal? cs).map Decimal.toFloat

/-- The double that a text spells. -/
def float? : List Char → Option Float
  | '-' :: cs => (unsignedFloat? cs).map (- ·)
  | '+' :: cs => unsignedFloat? cs
  | cs => unsignedFloat? cs

end PageAudit.Numeral
