import PageAudit.Timestamp.Basic

/-!
# Writing timestamps

`YYYY-MM-DDTHH:MM:SS`, a fraction of three, six or nine digits where one is needed, and `Z`. A year
outside 0 to 9999 has a sign.
-/

namespace PageAudit

namespace Date

/-- Four digits, or a sign and at least four digits outside 0 to 9999. -/
def yearText (year : Int) : String :=
  if 0 ≤ year && year ≤ 9999 then Numeral.padded 4 year.toNat
  else (if year < 0 then "-" else "+") ++ Numeral.padded 4 year.natAbs

def text (d : Date) : String :=
  yearText d.year ++ "-" ++ Numeral.padded 2 d.month ++ "-" ++ Numeral.padded 2 d.day

end Date

namespace Timestamp

/-- The fewest of 0, 3, 6 and 9 digits that are exact. -/
def fractionText (nanos : Nat) : String :=
  if nanos = 0 then ""
  else if nanos % 1000000 = 0 then "." ++ Numeral.padded 3 (nanos / 1000000)
  else if nanos % 1000 = 0 then "." ++ Numeral.padded 6 (nanos / 1000)
  else "." ++ Numeral.padded 9 nanos

def text (t : Timestamp) : String :=
  let s := t.secondOfDay
  let leap := t.nanos / 1000000000
  t.date.text ++ "T" ++ Numeral.padded 2 (s / 3600) ++ ":" ++ Numeral.padded 2 (s / 60 % 60) ++ ":"
    ++ Numeral.padded 2 (s % 60 + leap) ++ fractionText (t.nanos % 1000000000) ++ "Z"

end Timestamp

end PageAudit
