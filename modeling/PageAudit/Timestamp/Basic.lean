import PageAudit.Numeral.Digit

/-!
# Points in time

A timestamp counts the seconds since the start of 1970 in UTC. The calendar is the Gregorian one, also
for years before it was in use; day numbers and dates convert both ways in whole-number arithmetic.
-/

namespace PageAudit

/-- Seconds since 1970-01-01T00:00:00Z and nanoseconds after that second. A leap second is written as
second 59 with a further 10⁹ nanoseconds. -/
structure Timestamp where
  seconds : Int
  nanos : Nat := 0
  deriving DecidableEq, Repr, Inhabited

/-- A day of the Gregorian calendar. -/
structure Date where
  year : Int
  month : Nat
  day : Nat
  deriving DecidableEq, Repr

namespace Date

def isLeapYear (year : Int) : Bool :=
  year % 4 = 0 && (year % 100 ≠ 0 || year % 400 = 0)

def daysInMonth (year : Int) (month : Nat) : Nat :=
  match month with
  | 2 => if isLeapYear year then 29 else 28
  | 4 | 6 | 9 | 11 => 30
  | _ => 31

def isValid (d : Date) : Bool :=
  1 ≤ d.month && d.month ≤ 12 && 1 ≤ d.day && d.day ≤ daysInMonth d.year d.month

/-- Days from 1970-01-01. Years are taken to begin in March, so that the leap day comes last, and are
counted in eras of 400, each of 146097 days. -/
def toDays (d : Date) : Int :=
  let year := if d.month ≤ 2 then d.year - 1 else d.year
  let monthFromMarch : Int := (d.month + 9) % 12
  let era := year.fdiv 400
  let yearOfEra := year - era * 400
  let dayOfYear := (153 * monthFromMarch + 2) / 5 + d.day - 1
  let dayOfEra := yearOfEra * 365 + yearOfEra / 4 - yearOfEra / 100 + dayOfYear
  era * 146097 + dayOfEra - 719468

/-- The date so many days from 1970-01-01. -/
def ofDays (days : Int) : Date :=
  let shifted := days + 719468
  let era := shifted.fdiv 146097
  let dayOfEra := shifted - era * 146097
  let yearOfEra := (dayOfEra - dayOfEra / 1460 + dayOfEra / 36524 - dayOfEra / 146096) / 365
  let dayOfYear := dayOfEra - (365 * yearOfEra + yearOfEra / 4 - yearOfEra / 100)
  let monthFromMarch := (5 * dayOfYear + 2) / 153
  let day := (dayOfYear - (153 * monthFromMarch + 2) / 5 + 1).toNat
  let month := (if monthFromMarch < 10 then monthFromMarch + 3 else monthFromMarch - 9).toNat
  let year := yearOfEra + era * 400
  ⟨if month ≤ 2 then year + 1 else year, month, day⟩

end Date

namespace Timestamp

def date (t : Timestamp) : Date :=
  .ofDays (t.seconds.fdiv 86400)

/-- The second of the day. -/
def secondOfDay (t : Timestamp) : Nat :=
  (t.seconds.fmod 86400).toNat

/-- The timestamp of a date and a second of that day, in UTC. -/
def ofDate (d : Date) (secondOfDay : Int) (nanos : Nat) : Timestamp :=
  ⟨d.toDays * 86400 + secondOfDay, nanos⟩

end Timestamp

end PageAudit
