/-!
# Binary numbers exactly

A finite double is a whole number times a power of two. Printing works on these two numbers and never
on the rounded operations.
-/

namespace PageAudit.Numeral

/-- The magnitude `significand · 2 ^ exponent`. -/
structure Binary where
  significand : Nat
  exponent : Int
  deriving Repr, DecidableEq

/-- What a double says, apart from its sign. -/
inductive Magnitude where
  | finite (value : Binary)
  | infinite
  | notANumber

/-- The sign bit and the magnitude of a double. -/
def magnitude (x : Float) : Bool × Magnitude :=
  let bits := x.toBits.toNat
  let negative := bits / Nat.pow 2 63 = 1
  let exponent : Nat := bits / Nat.pow 2 52 % Nat.pow 2 11
  let fraction := bits % Nat.pow 2 52
  if exponent = 2047 then (negative, if fraction = 0 then .infinite else .notANumber)
  else if exponent = 0 then (negative, .finite ⟨fraction, -1074⟩)
  else (negative, .finite ⟨Nat.pow 2 52 + fraction, (exponent : Int) - 1075⟩)

namespace Binary

/-- The magnitude as a quotient of whole numbers, the divisor a power of two. -/
def quotient (b : Binary) : Nat × Nat :=
  (b.significand * Nat.pow 2 b.exponent.toNat, Nat.pow 2 (-b.exponent).toNat)

end Binary

end PageAudit.Numeral
