/-!
# Blank characters

The characters with the Unicode property White_Space, trimming, and when a text is blank. All of it
is on lists of characters, with the text form beside it.
-/

namespace PageAudit.Text

/-- The 25 characters with the Unicode property White_Space. -/
def isBlank (c : Char) : Bool :=
  let n := c.toNat
  (0x09 ≤ n && n ≤ 0x0D) || n = 0x20 || n = 0x85 || n = 0xA0 || n = 0x1680
    || (0x2000 ≤ n && n ≤ 0x200A) || n = 0x2028 || n = 0x2029 || n = 0x202F || n = 0x205F
    || n = 0x3000

/-- Drops the characters that satisfy `p` from the end. -/
def dropEndWhile (p : Char → Bool) (cs : List Char) : List Char :=
  (cs.reverse.dropWhile p).reverse

/-- Drops the blank characters at both ends. -/
def trimmed (cs : List Char) : List Char :=
  dropEndWhile isBlank (cs.dropWhile isBlank)

def trim (s : String) : String :=
  .ofList (trimmed s.toList)

/-- A text with nothing but blank characters. -/
def isBlankText (s : String) : Bool :=
  s.toList.all isBlank

@[simp] theorem toList_trim (s : String) : (trim s).toList = trimmed s.toList := by
  simp [trim]

theorem dropWhile_eq_nil_iff_all {p : Char → Bool} {cs : List Char} :
    cs.dropWhile p = [] ↔ cs.all p = true := by
  induction cs with
  | nil => simp
  | cons c cs ih =>
    by_cases h : p c
    · simp [h, ih]
    · simp [h]

theorem dropWhile_dropWhile (p : Char → Bool) (cs : List Char) :
    (cs.dropWhile p).dropWhile p = cs.dropWhile p := by
  induction cs with
  | nil => rfl
  | cons c cs ih =>
    by_cases h : p c
    · simpa [h] using ih
    · simp [h]

/-- Trimming leaves nothing exactly when all is blank. -/
theorem trimmed_eq_nil_iff {cs : List Char} : trimmed cs = [] ↔ cs.all isBlank = true := by
  rw [trimmed, dropEndWhile, List.reverse_eq_nil_iff, dropWhile_eq_nil_iff_all,
    List.all_reverse, ← dropWhile_eq_nil_iff_all, dropWhile_dropWhile, dropWhile_eq_nil_iff_all]

theorem isBlankText_iff_trim {s : String} : isBlankText s = true ↔ trim s = "" := by
  rw [isBlankText, ← trimmed_eq_nil_iff, ← toList_trim, String.toList_eq_nil_iff]

end PageAudit.Text
