import PageAudit.Numeral.Binary

/-!
# Shortest decimals

The decimal with the fewest digits that reads back as the same double. Among decimals of that length
the nearest to the exact value is taken, and of two equally near ones the larger.
-/

namespace PageAudit.Numeral

/-- The reals that round to a double, as numbers of one unit: `low` to `high` around `value`, the ends
included when `closed`. -/
structure Interval where
  low : Nat
  value : Nat
  high : Nat
  unit : Nat
  closed : Bool

namespace Binary

/-- Half the distance to the neighbour on each side; below a power of two the neighbour is nearer. -/
def interval (b : Binary) : Interval :=
  let (num, den) := Binary.quotient ⟨4 * b.significand, b.exponent⟩
  let step := Nat.pow 2 b.exponent.toNat
  let below := if b.significand = Nat.pow 2 52 && b.exponent > -1074 then step else 2 * step
  ⟨num - below, num, num + 2 * step, 4 * den, b.significand % 2 = 0⟩

end Binary

namespace Interval

/-- The interval with `x / unit` in it. -/
def contains (i : Interval) (x : Nat) : Bool :=
  if i.closed then i.low ≤ x && x ≤ i.high else i.low < x && x < i.high

/-- The multiple of `step` in the interval that is nearest to its value, the larger of two. -/
def nearestMultiple? (i : Interval) (step : Nat) : Option Nat :=
  let d := i.value / step
  let below := i.value - d * step
  let above := step - below
  match i.contains (d * step), i.contains ((d + 1) * step) with
  | true, true => some (if below < above then d else d + 1)
  | true, false => some d
  | false, true => some (d + 1)
  | false, false => none

/-- All bounds times `n`. -/
def scale (i : Interval) (n : Nat) : Interval :=
  { i with low := i.low * n, value := i.value * n, high := i.high * n }

/-- The shortest decimal `digits · 10 ^ exponent` in the interval, tried from exponent `exponent`
down for `tries` exponents. -/
def shortest (i : Interval) (exponent : Int) : Nat → Nat × Int
  | 0 => (0, 0)
  | tries + 1 =>
    match (i.scale (Nat.pow 10 (-exponent).toNat)).nearestMultiple?
      (i.unit * Nat.pow 10 exponent.toNat) with
    | some d => (d, exponent)
    | none => i.shortest (exponent - 1) tries

end Interval

/-- `d · 10 ^ exponent` written out without an exponent. -/
def positional (d : Nat) (exponent : Int) : String :=
  if 0 ≤ exponent then toString (d * Nat.pow 10 exponent.toNat)
  else
    let places := (-exponent).toNat
    let unit := Nat.pow 10 places
    let fraction := toString (d % unit)
    toString (d / unit) ++ "." ++ "".pushn '0' (places - fraction.length) ++ fraction

/-- The text of a double: its shortest decimal, never with an exponent. -/
def shortestText (x : Float) : String :=
  let (negative, size) := magnitude x
  match size with
  | .notANumber => "NaN"
  | .infinite => if negative then "-inf" else "inf"
  | .finite b =>
    let sign := if negative then "-" else ""
    if b.significand = 0 then sign ++ "0"
    else
      let (d, exponent) := b.interval.shortest 309 640
      sign ++ positional d exponent

end PageAudit.Numeral
