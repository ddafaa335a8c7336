/-!
# Digits

Digits in a base up to sixteen, and the whole numbers that they spell.
-/

namespace PageAudit.Numeral

/-- The value of a digit in base `base`, at most sixteen; letters in either case. -/
def digit? (base : Nat) (c : Char) : Option Nat :=
  let n := c.toNat
  let value :=
    if '0' ≤ c && c ≤ '9' then n - 0x30
    else if 'a' ≤ c && c ≤ 'f' then n - 0x61 + 10
    else if 'A' ≤ c && c ≤ 'F' then n - 0x41 + 10
    else base
  if value < base then some value else none

def isDigit (base : Nat) (c : Char) : Bool :=
  (digit? base c).isSome

/-- The number that a run of digits spells, read from the left. -/
def ofDigits (base : Nat) (cs : List Char) : Nat :=
  cs.foldl (fun n c => n * base + (digit? base c).getD 0) 0

/-- A non-empty run of digits. -/
def natural? (base : Nat) (cs : List Char) : Option Nat :=
  if cs.isEmpty || !cs.all (isDigit base) then none else some (ofDigits base cs)

/-- Decimal digits after at most one plus sign, with any number of leading zeros. -/
def unsigned? : List Char → Option Nat
  | '+' :: cs => natural? 10 cs
  | cs => natural? 10 cs

/-- An unsigned number no larger than `max`. -/
def upTo? (max : Nat) (cs : List Char) : Option Nat :=
  (unsigned? cs).filter (· ≤ max)

def hexDigit (n : Nat) : Char :=
  if n < 10 then .ofNat (0x30 + n) else .ofNat (0x61 + (n - 10))

/-- The low `width` hex digits of `n`, in lower case. -/
def hex (n : Nat) : Nat → List Char
  | 0 => []
  | width + 1 => hexDigit (n / Nat.pow 16 width % 16) :: hex n width

/-- The digits of `n`, with zeros in front up to `width`. -/
def padded (width n : Nat) : String :=
  let digits := toString n
  "".pushn '0' (width - digits.length) ++ digits

end PageAudit.Numeral
