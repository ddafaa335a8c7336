import PageAudit.Timestamp.Basic
import PageAudit.Text.Blank

/-!
# Reading timestamps

A date and a time with an offset from UTC, read generously: numbers may lack leading zeros, blanks may
stand before a number or a separator, and `T`, `t` or a space may stand between date and time. The
offset is `Z`, `UTC` or hours and minutes, and the result is in UTC.
-/

namespace PageAudit.Timestamp

def skipBlank (cs : List Char) : List Char :=
  cs.dropWhile Text.isBlank

/-- A number of at least one and at most `most` digits. -/
def number? (most : Nat) (cs : List Char) : Option (Nat × List Char) :=
  let digits := (cs.takeWhile Char.isDigit).take most
  (Numeral.natural? 10 digits).map fun n => (n, cs.drop digits.length)

/-- A number of one or two digits after blanks, between two bounds. -/
def field? (low high : Nat) (cs : List Char) : Option (Nat × List Char) :=
  match number? 2 (skipBlank cs) with
  | some (n, rest) => if low ≤ n && n ≤ high then some (n, rest) else none
  | none => none

/-- The separator `c` after blanks. -/
def separator? (c : Char) (cs : List Char) : Option (List Char) :=
  match skipBlank cs with
  | x :: rest => if x = c then some rest else none
  | [] => none

/-- A year: up to four digits, or a sign and any number of digits. -/
def year? (cs : List Char) : Option (Int × List Char) :=
  match skipBlank cs with
  | '-' :: rest => (number? rest.length rest).map fun (n, rest) => (-(n : Int), rest)
  | '+' :: rest => (number? rest.length rest).map fun (n, rest) => ((n : Int), rest)
  | rest => (number? 4 rest).map fun (n, rest) => ((n : Int), rest)

/-- Years that a timestamp can have. -/
def minYear : Int := -262143

def maxYear : Int := 262142

def date? (cs : List Char) : Option (Date × List Char) := do
  let (year, cs) ← year? cs
  let (month, cs) ← field? 1 12 (← separator? '-' cs)
  let (day, cs) ← field? 1 31 (← separator? '-' cs)
  let date : Date := ⟨year, month, day⟩
  if date.isValid && minYear ≤ year && year ≤ maxYear then some (date, cs) else none

/-- Nanoseconds: a point and digits, of which nine count, or nothing. -/
def nanos? : List Char → Option (Nat × List Char)
  | '.' :: rest =>
    let digits := rest.takeWhile Char.isDigit
    let counted := digits.take 9
    (Numeral.natural? 10 counted).map fun n =>
      (n * Nat.pow 10 (9 - counted.length), rest.drop digits.length)
  | cs => some (0, cs)

/-- The second of the day and the nanoseconds; second 60 is a leap second. -/
def time? (cs : List Char) : Option ((Nat × Nat) × List Char) := do
  let (hour, cs) ← field? 0 23 cs
  let (minute, cs) ← field? 0 59 (← separator? ':' cs)
  let (second, cs) ← field? 0 60 (← separator? ':' cs)
  let (nanos, cs) ← nanos? cs
  let leap := if second = 60 then 1000000000 else 0
  some ((hour * 3600 + minute * 60 + min second 59, nanos + leap), cs)

/-- Two digits. -/
def twoDigits? : List Char → Option (Nat × List Char)
  | a :: b :: rest => (Numeral.natural? 10 [a, b]).map (·, rest)
  | _ => none

/-- Hours and minutes after the sign, with or without a colon between them. -/
def hoursMinutes? (cs : List Char) : Option (Int × List Char) := do
  let (hours, cs) ← twoDigits? cs
  let cs := cs.dropWhile fun c => c = ':' || Text.isBlank c
  let (minutes, cs) ← twoDigits? cs
  if minutes < 60 && hours < 24 then some ((hours * 3600 + minutes * 60 : Nat), cs) else none

/-- The offset from UTC in seconds. -/
def offset? (cs : List Char) : Option (Int × List Char) :=
  match cs with
  | [] => none
  | c :: rest =>
    if String.ofList ((cs.take 3).map Char.toLower) = "utc" then some (0, cs.drop 3)
    else if c = 'z' || c = 'Z' then some (0, rest)
    else if c = '+' then hoursMinutes? rest
    else if c = '-' || c = '\u2212' then (hoursMinutes? rest).map fun (n, rest) => (-n, rest)
    else none

/-- The character between date and time. -/
def isDivider (c : Char) : Bool :=
  c = 'T' || c = 't' || c = ' '

/-- The point in time that a text names. -/
def parse? (s : String) : Option Timestamp := do
  let (date, cs) ← date? s.toList
  let cs ← match cs with
    | c :: rest => if isDivider c then some rest else none
    | [] => none
  let ((second, nanos), cs) ← time? cs
  let (offset, cs) ← offset? (skipBlank cs)
  let result := ofDate date (second - offset) nanos
  let year := result.date.year
  if (skipBlank cs).isEmpty && minYear ≤ year && year ≤ maxYear then some result else none

end PageAudit.Timestamp
