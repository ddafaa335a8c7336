import PageAudit.Timestamp.Basic
import Mathlib.Tactic.IntervalCases
import Mathlib.Tactic.Linarith
import Mathlib.Tactic.Ring

/-!
# The calendar

Every day number has a date that the calendar has (`isValid_ofDays`), and the day number of that date is
the one it was made from (`toDays_ofDays`).

Both follow from taking a day number apart (`ofDays_parts`): eras of 400 years, centuries, spans of four
years, years and days. A century has a day less than 25 spans, unless it is the last of its era, and a
year a day less than the last of its span; only the day left over falls on a 29th of February.
-/

namespace PageAudit.Date

/-- A day of an era in centuries, spans of four years, years and days, and its year of the era. -/
theorem yearOfEra_parts (n : Int) (h0 : 0 ≤ n) (h1 : n ≤ 146096) :
    ∃ c q t d : Int, (0 ≤ c ∧ c ≤ 3) ∧ (0 ≤ q ∧ q ≤ 24) ∧ (0 ≤ t ∧ t ≤ 3) ∧ (0 ≤ d ∧ d ≤ 365) ∧
      n = 36524 * c + 1461 * q + 365 * t + d ∧
      (n - n / 1460 + n / 36524 - n / 146096) / 365 = 100 * c + 4 * q + t ∧
      (d = 365 → t = 3 ∧ (q = 24 → c = 3)) := by
  -- the last day of an era would begin a fifth century, and the last day of a span a fifth year
  obtain ⟨c, r, hn, hc0, hc3, hr, hr'⟩ : ∃ c r : Int, n = 36524 * c + r ∧ 0 ≤ c ∧ c ≤ 3 ∧ 0 ≤ r ∧
      (r ≤ 36523 ∨ r = 36524 ∧ c = 3) := by
    by_cases h : n = 146096
    · exact ⟨3, 36524, by omega, by omega, by omega, by omega, by omega⟩
    · exact ⟨n / 36524, n % 36524, by omega, by omega, by omega, by omega, by omega⟩
  obtain ⟨q, s, hq, hs, hs'⟩ : ∃ q s : Int, r = 1461 * q + s ∧ 0 ≤ s ∧ s ≤ 1460 :=
    ⟨r / 1461, r % 1461, by omega, by omega, by omega⟩
  obtain ⟨t, d, ht, ht0, ht3, hd, hd'⟩ : ∃ t d : Int, s = 365 * t + d ∧ 0 ≤ t ∧ t ≤ 3 ∧ 0 ≤ d ∧
      (d ≤ 364 ∨ d = 365 ∧ t = 3) := by
    by_cases h : s = 1460
    · exact ⟨3, 365, by omega, by omega, by omega, by omega, by omega⟩
    · exact ⟨s / 365, s % 365, by omega, by omega, by omega, by omega, by omega⟩
  refine ⟨c, q, t, d, ⟨hc0, hc3⟩, ⟨by omega, by omega⟩, ⟨ht0, ht3⟩, ⟨hd, by omega⟩, by omega, ?_,
    by omega⟩
  -- the leap days before `n`, or one more at the end of a span
  have leaps : n / 1460 = 25 * c + q + (if 1460 ≤ q + s + 24 * c then 1 else 0) := by
    split <;> omega
  have centuries : n / 36524 - n / 146096 = c := by
    rcases hr' with h | ⟨h, h'⟩
    · have : n / 36524 = c := by omega
      omega
    · omega
  split at leaps <;> omega

/-- The day with number `day`, from 0, of the year that begins in the March of `year`. -/
def ofMarch (year day : Int) : Date :=
  let m := (5 * day + 2) / 153
  let month := (if m < 10 then m + 3 else m - 9).toNat
  ⟨if month ≤ 2 then year + 1 else year, month, (day - (153 * m + 2) / 5 + 1).toNat⟩

theorem spans_of_year {c q t : Int} (hq : 0 ≤ q ∧ q ≤ 24) (ht : 0 ≤ t ∧ t ≤ 3) :
    (100 * c + 4 * q + t) / 4 = 25 * c + q ∧ (100 * c + 4 * q + t) / 100 = c := by
  omega

/-- A day number in eras, centuries, spans of four years, years and days. -/
theorem ofDays_parts (n : Int) :
    ∃ era c q t d : Int,
      (0 ≤ c ∧ c ≤ 3) ∧ (0 ≤ q ∧ q ≤ 24) ∧ (0 ≤ t ∧ t ≤ 3) ∧ (0 ≤ d ∧ d ≤ 365) ∧
      n + 719468 = era * 146097 + 36524 * c + 1461 * q + 365 * t + d ∧
      (d = 365 → t = 3 ∧ (q = 24 → c = 3)) ∧
      ofDays n = ofMarch (100 * c + 4 * q + t + era * 400) d := by
  have hm0 : 0 ≤ (n + 719468) % 146097 := Int.emod_nonneg _ (by decide)
  have hm1 : (n + 719468) % 146097 < 146097 := Int.emod_lt_of_pos _ (by decide)
  have hn : n + 719468 = 146097 * ((n + 719468) / 146097) + (n + 719468) % 146097 :=
    (Int.mul_ediv_add_emod _ _).symm
  have hera : (n + 719468).fdiv 146097 = (n + 719468) / 146097 :=
    Int.fdiv_eq_ediv_of_nonneg _ (by decide)
  generalize (n + 719468) % 146097 = m at *
  generalize (n + 719468) / 146097 = era at *
  obtain ⟨c, q, t, d, hc, hq, ht, hd, hm, hy, hleap⟩ := yearOfEra_parts m hm0 (by omega)
  obtain ⟨h4, h100⟩ := spans_of_year hq ht
  have hday : m - (365 * (100 * c + 4 * q + t) + (100 * c + 4 * q + t) / 4
      - (100 * c + 4 * q + t) / 100) = d := by
    rw [h4, h100, hm]
    ring
  refine ⟨era, c, q, t, d, hc, hq, ht, hd, ?_, hleap, ?_⟩
  · rw [hn, hm]
    ring
  · have hrest : n + 719468 - era * 146097 = m := by
      rw [hn]
      ring
    unfold ofDays ofMarch
    simp only [hera, hrest, hy, hday]

/-- The month, counted from March, and the day that a day of the year falls on. -/
theorem ofMarch_parts {d : Int} (h0 : 0 ≤ d) (h1 : d ≤ 365) :
    ∃ m k : Int, (5 * d + 2) / 153 = m ∧ (0 ≤ m ∧ m ≤ 11) ∧ d = (153 * m + 2) / 5 + k ∧
      (0 ≤ k ∧ k ≤ 30) :=
  ⟨_, d - (153 * ((5 * d + 2) / 153) + 2) / 5, rfl, by omega, by omega, by omega⟩

theorem toDays_ofMarch {y d : Int} (h0 : 0 ≤ d) (h1 : d ≤ 365) :
    (ofMarch y d).toDays = y / 400 * 146097 +
      ((y - y / 400 * 400) * 365 + (y - y / 400 * 400) / 4 - (y - y / 400 * 400) / 100 + d)
        - 719468 := by
  obtain ⟨m, k, hm, ⟨hm0, hm1⟩, hd, hk0, hk1⟩ := ofMarch_parts h0 h1
  have hk : d - (153 * m + 2) / 5 + 1 = k + 1 := by omega
  have hday : ((k + 1).toNat : Int) = k + 1 := by omega
  unfold ofMarch toDays
  simp only [hm, hk, hday, Int.fdiv_eq_ediv_of_nonneg _ (by decide : (0 : Int) ≤ 400)]
  by_cases h : m < 10
  · have hmonth : ¬ (m + 3).toNat ≤ 2 := by omega
    have hmarch : (((m + 3).toNat : Int) + 9) % 12 = m := by omega
    simp only [if_pos h, if_neg hmonth, hmarch]
    rw [hd]
    ring
  · have hmonth : (m - 9).toNat ≤ 2 := by omega
    have hmarch : (((m - 9).toNat : Int) + 9) % 12 = m := by omega
    simp only [if_neg h, if_pos hmonth, hmarch, Int.add_sub_cancel]
    rw [hd]
    ring

/-- **Dates and day numbers** convert both ways. -/
theorem toDays_ofDays (n : Int) : (ofDays n).toDays = n := by
  obtain ⟨era, c, q, t, d, hc, hq, ht, hd, hn, -, he⟩ := ofDays_parts n
  have hera : (100 * c + 4 * q + t + era * 400) / 400 = era := by omega
  have hyear : 100 * c + 4 * q + t + era * 400 - era * 400 = 100 * c + 4 * q + t := by ring
  obtain ⟨h4, h100⟩ := spans_of_year hq ht (c := c)
  rw [he, toDays_ofMarch hd.1 hd.2, hera, hyear, h4, h100]
  linarith

/-- The months from March on have as many days as the reckoning gives them; February comes last. -/
theorem day_le_daysInMonth {y m k : Int} (hm0 : 0 ≤ m) (hm1 : m ≤ 11)
    (hk : (153 * m + 2) / 5 + k < (153 * (m + 1) + 2) / 5) (hlast : (153 * m + 2) / 5 + k ≤ 365)
    (hl : (153 * m + 2) / 5 + k = 365 → isLeapYear y = true) :
    (k + 1).toNat ≤ daysInMonth y (if m < 10 then m + 3 else m - 9).toNat := by
  by_cases hfeb : m = 11
  · subst hfeb
    show (k + 1).toNat ≤ if isLeapYear y then 29 else 28
    by_cases h : (153 * 11 + 2) / 5 + k = 365
    · rw [hl h, if_pos rfl]
      omega
    · split <;> omega
  · clear hl
    interval_cases m
    all_goals first
      | (show (k + 1).toNat ≤ 31; omega)
      | (show (k + 1).toNat ≤ 30; omega)
      | exact absurd rfl hfeb

theorem isValid_ofMarch {y d : Int} (h0 : 0 ≤ d) (h1 : d ≤ 365)
    (hl : d = 365 → isLeapYear (y + 1) = true) : (ofMarch y d).isValid = true := by
  obtain ⟨m, k, hm, ⟨hm0, hm1⟩, hd, hk0, hk1⟩ := ofMarch_parts h0 h1
  have hk : d - (153 * m + 2) / 5 + 1 = k + 1 := by omega
  have hnext : (153 * m + 2) / 5 + k < (153 * (m + 1) + 2) / 5 := by omega
  have hlast : (153 * m + 2) / 5 + k = 365 → m = 11 := by omega
  clear hm1
  unfold ofMarch isValid
  simp only [hm, hk]
  generalize hmonth : (if m < 10 then m + 3 else m - 9).toNat = month
  have hbounds : 1 ≤ month ∧ month ≤ 12 := by
    subst hmonth
    split <;> omega
  have hday : (k + 1).toNat ≤ daysInMonth (if month ≤ 2 then y + 1 else y) month := by
    subst hmonth
    refine day_le_daysInMonth hm0 (by omega) hnext (hd ▸ h1) fun h => ?_
    -- the last day of a leap year: the 29th of February
    obtain rfl := hlast h
    exact hl (hd.trans h)
  simp only [hbounds, hday, decide_true, Bool.true_and, Bool.and_true, decide_eq_true_eq]
  omega

/-- **The date of a day number** is one that the calendar has. -/
theorem isValid_ofDays (n : Int) : (ofDays n).isValid = true := by
  obtain ⟨era, c, q, t, d, hc, hq, ht, hd, -, hleap, he⟩ := ofDays_parts n
  rw [he]
  refine isValid_ofMarch hd.1 hd.2 fun h => ?_
  obtain ⟨rfl, hcentury⟩ := hleap h
  unfold isLeapYear
  have h4 : (100 * c + 4 * q + 3 + era * 400 + 1) % 4 = 0 := by omega
  have h100 : (100 * c + 4 * q + 3 + era * 400 + 1) % 100 = 0 → q = 24 := by omega
  have h400 : q = 24 → (100 * c + 4 * q + 3 + era * 400 + 1) % 400 = 0 := by omega
  rw [decide_eq_true h4, Bool.true_and, Bool.or_eq_true]
  by_cases hq' : q = 24
  · exact .inr (decide_eq_true (h400 hq'))
  · exact .inl (decide_eq_true fun h => hq' (h100 h))

end PageAudit.Date
