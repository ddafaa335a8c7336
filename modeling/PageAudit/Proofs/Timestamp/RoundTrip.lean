import PageAudit.Timestamp.Printer
import PageAudit.Timestamp.Reader
import PageAudit.Proofs.Numeral.Decimal
import PageAudit.Proofs.Text.Pieces
import PageAudit.Proofs.Timestamp.Calendar

/-!
# Reading timestamps that were written

Each part of a timestamp is read off the front of its text: `year?_yearText`, `date?_text`,
`nanos?_fractionText`, `time?_text`. A number ends where a character follows that is no digit
(`EndsNumber`), and in a timestamp one always does.

* `parse?_text`: a timestamp whose year has a text is read back from its text, also in a leap second.
-/

namespace PageAudit.Timestamp

/-! ## Numbers and separators -/

/-- What follows does not go on with a digit. -/
def EndsNumber (rest : List Char) : Prop :=
  ∀ c ∈ rest.head?, c.isDigit = false

theorem endsNumber_cons {c : Char} (h : c.isDigit = false) (rest : List Char) :
    EndsNumber (c :: rest) := by
  intro d hd
  rw [List.head?_cons, Option.mem_some_iff] at hd
  exact hd ▸ h

theorem not_isBlank_of_isDigit {c : Char} (h : c.isDigit = true) : Text.isBlank c = false := by
  rw [Char.isDigit, Bool.and_eq_true, decide_eq_true_eq, decide_eq_true_eq] at h
  have hlow : 48 ≤ c.toNat := h.1
  have hhigh : c.toNat ≤ 57 := h.2
  exact Text.not_isBlank_of_lt (by omega) (by omega)

theorem skipBlank_cons {c : Char} (h : Text.isBlank c = false) (cs : List Char) :
    skipBlank (c :: cs) = c :: cs := by
  simp [skipBlank, h]

theorem separator?_cons {c : Char} (h : Text.isBlank c = false) (rest : List Char) :
    separator? c (c :: rest) = some rest := by
  simp [separator?, skipBlank_cons h]

theorem takeWhile_isDigit {ds rest : List Char} (hds : ∀ c ∈ ds, c.isDigit = true)
    (hrest : EndsNumber rest) : (ds ++ rest).takeWhile Char.isDigit = ds := by
  rw [List.takeWhile_append_of_pos hds]
  cases rest with
  | nil => simp
  | cons c rest => simp [hrest c rfl]

/-- A padded number begins with a digit. -/
theorem padded_cons (width n : Nat) :
    ∃ c cs, (Numeral.padded width n).toList = c :: cs ∧ c.isDigit = true := by
  obtain ⟨c, cs, h⟩ := List.exists_cons_of_ne_nil (Numeral.padded_ne_nil width n)
  exact ⟨c, cs, h, Numeral.isDigit_of_mem_padded c (by rw [h]; simp)⟩

theorem skipBlank_padded (width n : Nat) (rest : List Char) :
    skipBlank ((Numeral.padded width n).toList ++ rest) =
      (Numeral.padded width n).toList ++ rest := by
  obtain ⟨c, cs, h, hc⟩ := padded_cons width n
  rw [h, List.cons_append, skipBlank_cons (not_isBlank_of_isDigit hc)]

section
variable {width n : Nat} {rest : List Char} (hrest : EndsNumber rest)
include hrest

theorem number?_padded {most : Nat} (h : (Numeral.padded width n).toList.length ≤ most) :
    number? most ((Numeral.padded width n).toList ++ rest) = some (n, rest) := by
  unfold number?
  simp only [takeWhile_isDigit Numeral.isDigit_of_mem_padded hrest, List.take_of_length_le h,
    Numeral.natural?_padded, Option.map_some, List.drop_left]

theorem nanos?_padded (h : (Numeral.padded width n).toList.length ≤ 9) :
    nanos? ('.' :: ((Numeral.padded width n).toList ++ rest)) =
      some (n * Nat.pow 10 (9 - (Numeral.padded width n).toList.length), rest) := by
  unfold nanos?
  simp only [takeWhile_isDigit Numeral.isDigit_of_mem_padded hrest, List.take_of_length_le h,
    Numeral.natural?_padded, Option.map_some, List.drop_left]

theorem field?_padded {low high : Nat} (hlow : low ≤ n) (hhigh : n ≤ high) (hn : n < 100) :
    field? low high ((Numeral.padded 2 n).toList ++ rest) = some (n, rest) := by
  unfold field?
  rw [skipBlank_padded, number?_padded hrest (Numeral.length_padded (by decide) hn).le]
  simp [hlow, hhigh]

end

/-! ## Dates -/

section
variable {rest : List Char} (hrest : EndsNumber rest)
include hrest

/-- A year without a sign has at most four digits. -/
theorem year?_padded {n : Nat} (hn : n < 10000) :
    year? ((Numeral.padded 4 n).toList ++ rest) = some ((n : Int), rest) := by
  have hlen : (Numeral.padded 4 n).toList.length = 4 := Numeral.length_padded (by decide) hn
  have hnum := number?_padded hrest hlen.le
  obtain ⟨c, cs, hp, hc⟩ := padded_cons 4 n
  unfold year?
  rw [skipBlank_padded]
  rw [hp, List.cons_append] at hnum ⊢
  split
  · next heq => exact absurd (List.cons.inj heq).1 (by rintro rfl; cases hc)
  · next heq => exact absurd (List.cons.inj heq).1 (by rintro rfl; cases hc)
  · rw [hnum, Option.map_some]

/-- After a sign all digits count. -/
theorem year?_signed (n : Nat) :
    year? ('-' :: ((Numeral.padded 4 n).toList ++ rest)) = some (-(n : Int), rest) ∧
      year? ('+' :: ((Numeral.padded 4 n).toList ++ rest)) = some ((n : Int), rest) := by
  have hlen : (Numeral.padded 4 n).toList.length ≤
      ((Numeral.padded 4 n).toList ++ rest).length := by
    rw [List.length_append]
    omega
  have hnum := number?_padded hrest hlen
  constructor
  · rw [year?, skipBlank_cons rfl]
    simp only [hnum, Option.map_some]
  · rw [year?, skipBlank_cons rfl]
    simp only [hnum, Option.map_some]

theorem year?_yearText (y : Int) :
    year? ((Date.yearText y).toList ++ rest) = some (y, rest) := by
  obtain ⟨minus, plus⟩ := year?_signed hrest y.natAbs
  unfold Date.yearText
  split
  · next h =>
    rw [Bool.and_eq_true, decide_eq_true_eq, decide_eq_true_eq] at h
    have hy : (y.toNat : Int) = y := by omega
    rw [year?_padded hrest (by omega), hy]
  · next h =>
    rw [Bool.and_eq_true, decide_eq_true_eq, decide_eq_true_eq] at h
    rw [String.toList_append, List.append_assoc]
    split
    · have hy : -(y.natAbs : Int) = y := by omega
      rw [show "-".toList = ['-'] by simp, List.cons_append, List.nil_append, minus, hy]
    · have hy : (y.natAbs : Int) = y := by omega
      rw [show "+".toList = ['+'] by simp, List.cons_append, List.nil_append, plus, hy]

theorem date?_text {d : Date} (hd : d.isValid = true) (hy : minYear ≤ d.year ∧ d.year ≤ maxYear) :
    date? (d.text.toList ++ rest) = some (d, rest) := by
  have hv := hd
  unfold Date.isValid at hv
  simp only [Bool.and_eq_true, decide_eq_true_eq] at hv
  obtain ⟨⟨⟨hm1, hm12⟩, hd1⟩, hdays⟩ := hv
  have hd31 : d.day ≤ 31 := by
    refine hdays.trans ?_
    unfold Date.daysInMonth
    split
    · split <;> omega
    all_goals omega
  have dash : ∀ rest, EndsNumber ('-' :: rest) := endsNumber_cons rfl
  have htext : d.text.toList ++ rest = (Date.yearText d.year).toList ++ '-' ::
      ((Numeral.padded 2 d.month).toList ++ '-' :: ((Numeral.padded 2 d.day).toList ++ rest)) := by
    simp only [Date.text, String.toList_append, String.reduceToList, List.append_assoc,
      List.cons_append, List.nil_append]
  unfold date?
  rw [htext, year?_yearText (dash _)]
  simp only [Option.bind_eq_bind, Option.bind_some, separator?_cons (c := '-') rfl]
  rw [field?_padded (dash _) hm1 hm12 (by omega)]
  simp only [Option.bind_some, separator?_cons (c := '-') rfl]
  rw [field?_padded hrest hd1 hd31 (by omega)]
  simp [hd, hy]

end

/-! ## Times -/

/-- The fraction ends at the letter that names the offset. -/
theorem nanos?_fractionText {n : Nat} (hn : n < 1000000000) :
    nanos? ((fractionText n).toList ++ ['Z']) = some (n, ['Z']) := by
  have places : ∀ width m, 0 < width → width ≤ 9 → m < 10 ^ width →
      m * Nat.pow 10 (9 - width) = n →
      nanos? (("." ++ Numeral.padded width m).toList ++ ['Z']) = some (n, ['Z']) := by
    intro width m hw hw9 hm hnm
    have hlen := Numeral.length_padded hw hm
    have hread := nanos?_padded (endsNumber_cons (c := 'Z') rfl []) (hlen.le.trans hw9)
    rw [hlen, hnm] at hread
    rw [String.toList_append, show ".".toList = ['.'] by simp, List.append_assoc, List.cons_append,
      List.nil_append, hread]
  unfold fractionText
  split
  · next h =>
    subst h
    rfl
  split
  · exact places 3 _ (by decide) (by decide) (by omega) (by simp; omega)
  split
  · exact places 6 _ (by decide) (by decide) (by omega) (by simp; omega)
  · exact places 9 _ (by decide) (by decide) (by omega) (by simp)

/-- What stands between the date and the offset, `leap` being 1 in a leap second. -/
def timeText (s leap nanos : Nat) : String :=
  Numeral.padded 2 (s / 3600) ++ ":" ++ Numeral.padded 2 (s / 60 % 60) ++ ":"
    ++ Numeral.padded 2 (s % 60 + leap) ++ fractionText nanos

theorem endsNumber_fractionText (nanos : Nat) :
    EndsNumber ((fractionText nanos).toList ++ ['Z']) := by
  have point : ∀ digits : String, EndsNumber (("." ++ digits).toList ++ ['Z']) := by
    intro digits
    rw [String.toList_append, show ".".toList = ['.'] by simp, List.append_assoc]
    exact endsNumber_cons rfl _
  unfold fractionText
  split
  · exact endsNumber_cons rfl _
  split
  · exact point _
  split
  · exact point _
  · exact point _

/-- A leap second comes after the last second of a minute. -/
theorem time?_text {s leap nanos : Nat} (hs : s < 86400) (hn : nanos < 1000000000)
    (hl : leap = 0 ∨ leap = 1 ∧ s % 60 = 59) :
    time? ((timeText s leap nanos).toList ++ ['Z']) =
      some ((s, nanos + leap * 1000000000), ['Z']) := by
  have colon : ∀ rest, EndsNumber (':' :: rest) := endsNumber_cons rfl
  have htext : (timeText s leap nanos).toList ++ ['Z'] =
      (Numeral.padded 2 (s / 3600)).toList ++ ':' :: ((Numeral.padded 2 (s / 60 % 60)).toList ++
        ':' :: ((Numeral.padded 2 (s % 60 + leap)).toList ++
          ((fractionText nanos).toList ++ ['Z']))) := by
    simp only [timeText, String.toList_append, String.reduceToList, List.append_assoc,
      List.cons_append, List.nil_append]
  have hsecond : s / 3600 * 3600 + s / 60 % 60 * 60 + min (s % 60 + leap) 59 = s := by omega
  have hleap : (if s % 60 + leap = 60 then 1000000000 else 0) = leap * 1000000000 := by
    split <;> omega
  unfold time?
  rw [htext, field?_padded (colon _) (Nat.zero_le _) (by omega) (by omega)]
  simp only [Option.bind_eq_bind, Option.bind_some, separator?_cons (c := ':') rfl]
  rw [field?_padded (colon _) (Nat.zero_le _) (by omega) (by omega)]
  simp only [Option.bind_some, separator?_cons (c := ':') rfl]
  rw [field?_padded (endsNumber_fractionText nanos) (Nat.zero_le _) (by omega) (by omega)]
  simp only [Option.bind_some, nanos?_fractionText hn, hsecond, hleap]

/-! ## Timestamps -/

/-- A timestamp that a text can name: its year has a text, and it is not in a leap second. -/
structure Writable (t : Timestamp) : Prop where
  year : minYear ≤ t.date.year ∧ t.date.year ≤ maxYear
  nanos : t.nanos < 1000000000

/-- A timestamp that can be: its year has a text, and it may be in the leap second after the last
second of a minute. -/
structure Representable (t : Timestamp) : Prop where
  year : minYear ≤ t.date.year ∧ t.date.year ≤ maxYear
  nanos : t.nanos < 2000000000
  leap : 1000000000 ≤ t.nanos → t.secondOfDay % 60 = 59

theorem Writable.representable {t : Timestamp} (h : t.Writable) : t.Representable where
  year := h.year
  nanos := h.nanos.trans (by decide)
  leap := fun hleap => absurd h.nanos (Nat.not_lt.2 hleap)

theorem secondOfDay_lt (t : Timestamp) : t.secondOfDay < 86400 := by
  have := Int.fmod_lt_of_pos t.seconds (by decide : (0 : Int) < 86400)
  have := Int.fmod_nonneg_of_pos t.seconds (by decide : (0 : Int) < 86400)
  unfold secondOfDay
  omega

/-- A timestamp is that of its date and of its second of the day. -/
theorem ofDate_date (t : Timestamp) : ofDate t.date t.secondOfDay t.nanos = t := by
  have hnonneg := Int.fmod_nonneg_of_pos t.seconds (by decide : (0 : Int) < 86400)
  have hsecond : (t.secondOfDay : Int) = t.seconds.fmod 86400 := Int.toNat_of_nonneg hnonneg
  have hsum : t.seconds.fdiv 86400 * 86400 + t.seconds.fmod 86400 = t.seconds := by
    rw [mul_comm]
    exact Int.mul_fdiv_add_fmod _ _
  rw [ofDate, date, Date.toDays_ofDays, hsecond, hsum]

theorem text_eq (t : Timestamp) : t.text.toList =
    t.date.text.toList ++ 'T' :: ((timeText t.secondOfDay (t.nanos / 1000000000)
      (t.nanos % 1000000000)).toList ++ ['Z']) := by
  unfold text timeText
  simp only [String.toList_append, String.reduceToList, List.append_assoc, List.cons_append,
    List.nil_append]

/-- **A timestamp is read back** from its text. -/
theorem parse?_text {t : Timestamp} (h : t.Representable) : parse? t.text = some t := by
  have hdate : t.date.isValid = true := Date.isValid_ofDays _
  have hofs : offset? (skipBlank ['Z']) = some (0, []) := by decide
  have hleap : t.nanos / 1000000000 = 0 ∨
      t.nanos / 1000000000 = 1 ∧ t.secondOfDay % 60 = 59 := by
    have := h.nanos
    have := h.leap
    omega
  have hnanos : t.nanos % 1000000000 + t.nanos / 1000000000 * 1000000000 = t.nanos := by omega
  unfold parse?
  rw [text_eq, date?_text (endsNumber_cons rfl _) hdate h.year]
  simp only [Option.bind_eq_bind, Option.bind_some]
  rw [time?_text t.secondOfDay_lt (Nat.mod_lt _ (by decide)) hleap]
  simp only [Option.bind_some, hofs, Int.sub_zero, hnanos, ofDate_date]
  simp [h.year, skipBlank, isDivider]

end PageAudit.Timestamp
