import PageAudit.Numeral.Digit
import PageAudit.Numeral.Binary

/-!
# Fixed decimals

A double written with a fixed number of decimals. The exact value is rounded, and a half goes to the
even neighbour.
-/

namespace PageAudit.Numeral

/-- `num / den` rounded to a whole number, a half to the even one. -/
def roundQuotient (num den : Nat) : Nat :=
  let q := num / den
  let r := num % den
  if 2 * r < den then q
  else if den < 2 * r then q + 1
  else q + q % 2

/-- `n / 10 ^ places`, written out. -/
def scaled (places n : Nat) : String :=
  let unit := Nat.pow 10 places
  let whole := toString (n / unit)
  if places = 0 then whole else whole ++ "." ++ padded places (n % unit)

/-- The text of a double with `places` decimals. -/
def fixed (places : Nat) (x : Float) : String :=
  let (negative, size) := magnitude x
  match size with
  | .notANumber => "NaN"
  | .infinite => if negative then "-inf" else "inf"
  | .finite b =>
    let (num, den) := b.quotient
    (if negative then "-" else "") ++ scaled places (roundQuotient (num * Nat.pow 10 places) den)

end PageAudit.Numeral
