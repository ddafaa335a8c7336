import PageAudit.Numeral.Digit
import Mathlib.Algebra.Ring.Nat

/-!
# Decimals read back

A number written in decimal, with zeros in front or without, is a run of digits (`isDigit_of_mem_padded`)
of the width asked for (`length_padded`), and reading it gives the number (`natural?_padded`).

Read as a number is what spells one and nothing else: a run of digits (`natural?_eq_some_iff`), for
bounded numbers with at most one plus sign before it (`upTo?_eq_some_iff`).
-/

namespace PageAudit.Numeral

theorem digit?_of_isDigit {c : Char} (h : c.isDigit = true) :
    digit? 10 c = some (c.toNat - '0'.toNat) := by
  have hc : '0' ≤ c ∧ c ≤ '9' := by
    rw [Char.isDigit, Bool.and_eq_true, decide_eq_true_eq, decide_eq_true_eq] at h
    exact h
  have hlow : 48 ≤ c.toNat := hc.1
  have hhigh : c.toNat ≤ 57 := hc.2
  unfold digit?
  simp only [hc.1, hc.2, decide_true, Bool.and_self, if_true]
  rw [if_pos (by omega)]
  rfl

/-- Reading digits is the library's reading of decimals. -/
theorem ofDigits_eq {cs : List Char} (h : ∀ c ∈ cs, c.isDigit = true) :
    ofDigits 10 cs = Nat.ofDigitChars 10 cs 0 := by
  have go : ∀ (cs : List Char) (n : Nat), (∀ c ∈ cs, c.isDigit = true) →
      cs.foldl (fun n c => n * 10 + (digit? 10 c).getD 0) n = Nat.ofDigitChars 10 cs n := by
    intro cs
    induction cs with
    | nil => intro n _; rfl
    | cons c cs ih =>
      intro n hcs
      obtain ⟨hc, hcs⟩ := List.forall_mem_cons.1 hcs
      rw [List.foldl_cons, ih _ hcs, digit?_of_isDigit hc, Option.getD_some,
        Nat.ofDigitChars_cons, Nat.mul_comm]
  exact go cs 0 h

theorem natural?_of_isDigit {cs : List Char} (hne : cs ≠ []) (h : ∀ c ∈ cs, c.isDigit = true) :
    natural? 10 cs = some (Nat.ofDigitChars 10 cs 0) := by
  have hall : cs.all (isDigit 10) = true := by
    refine List.all_eq_true.2 fun c hc => ?_
    rw [isDigit, digit?_of_isDigit (h c hc)]
    rfl
  have hempty : cs.isEmpty = false := by simpa using hne
  rw [natural?, hall, hempty, ofDigits_eq h]
  rfl

/-- In base ten no letter is a digit. -/
theorem isDigit_iff {c : Char} : isDigit 10 c = true ↔ c.isDigit = true := by
  constructor
  · intro h
    unfold isDigit digit? at h
    dsimp only at h
    by_cases hc : (decide ('0' ≤ c) && decide (c ≤ '9')) = true
    · rw [Bool.and_eq_true, decide_eq_true_eq, decide_eq_true_eq] at hc
      rw [Char.isDigit, Bool.and_eq_true, decide_eq_true_eq, decide_eq_true_eq]
      exact hc
    · -- Letters count from ten, and what is no letter has no value.
      have large : ∀ value, 10 ≤ value →
          (if value < 10 then some value else none).isSome = false := by
        intro value hv
        rw [if_neg (by omega)]
        rfl
      rw [if_neg hc, large] at h
      · cases h
      · split <;> [omega; split <;> omega]
  · intro h
    rw [isDigit, digit?_of_isDigit h]
    rfl

/-! ## Texts that spell a number -/

theorem natural?_eq_some_iff {cs : List Char} {n : Nat} : natural? 10 cs = some n ↔
    cs ≠ [] ∧ (∀ c ∈ cs, c.isDigit = true) ∧ Nat.ofDigitChars 10 cs 0 = n := by
  constructor
  · intro h
    have hne : cs ≠ [] := by
      rintro rfl
      cases h
    have hds : ∀ c ∈ cs, c.isDigit = true := by
      intro c hc
      by_contra hn
      have hall : cs.all (isDigit 10) = false :=
        List.all_eq_false.2 ⟨c, hc, fun hd => hn (isDigit_iff.1 hd)⟩
      rw [natural?, hall, Bool.not_false, Bool.or_true, if_pos rfl] at h
      cases h
    rw [natural?_of_isDigit hne hds] at h
    exact ⟨hne, hds, Option.some.inj h⟩
  · rintro ⟨hne, hds, rfl⟩
    exact natural?_of_isDigit hne hds

/-- Digits in a row, after at most one plus sign, that are worth `n`. -/
def Spells (cs : List Char) (n : Nat) : Prop :=
  ∃ ds, (cs = ds ∨ cs = '+' :: ds) ∧ ds ≠ [] ∧ (∀ c ∈ ds, c.isDigit = true) ∧
    Nat.ofDigitChars 10 ds 0 = n

theorem unsigned?_eq_some_iff {cs : List Char} {n : Nat} : unsigned? cs = some n ↔ Spells cs n := by
  fun_cases unsigned? cs
  case case1 cs =>
    rw [natural?_eq_some_iff]
    constructor
    · intro h
      exact ⟨cs, .inr rfl, h⟩
    · rintro ⟨ds, rfl | hds, h⟩
      · -- the plus sign is no digit itself
        exact absurd (h.2.1 '+' List.mem_cons_self) (by decide)
      · rwa [(List.cons.inj hds).2]
  case case2 hcs =>
    rw [natural?_eq_some_iff]
    constructor
    · intro h
      exact ⟨cs, .inl rfl, h⟩
    · rintro ⟨ds, rfl | hds, h⟩
      · exact h
      · exact absurd hds (hcs ds)

/-- **A bounded number** is read from what spells it, and from nothing else. -/
theorem upTo?_eq_some_iff {max : Nat} {cs : List Char} {n : Nat} :
    upTo? max cs = some n ↔ Spells cs n ∧ n ≤ max := by
  rw [upTo?, Option.filter_eq_some_iff, unsigned?_eq_some_iff, decide_eq_true_eq]

/-! ## Zeros in front -/

theorem toList_pushn (c : Char) (n : Nat) : ("".pushn c n).toList = List.replicate n c := by
  induction n with
  | zero => rfl
  | succ n ih =>
    have hstep : "".pushn c (n + 1) = ("".pushn c n).push c := rfl
    rw [hstep, String.toList_push, ih, List.replicate_succ']

theorem toList_padded (width n : Nat) : (padded width n).toList =
    List.replicate (width - (Nat.toDigits 10 n).length) '0' ++ Nat.toDigits 10 n := by
  unfold padded
  rw [String.toList_append, toList_pushn, Nat.toString_eq_repr, Nat.toList_repr,
    ← String.length_toList, Nat.toList_repr]

theorem isDigit_of_mem_padded {width n : Nat} : ∀ c ∈ (padded width n).toList, c.isDigit = true := by
  intro c hc
  rw [toList_padded] at hc
  rcases List.mem_append.1 hc with hc | hc
  · rw [List.eq_of_mem_replicate hc]
    rfl
  · exact Nat.isDigit_of_mem_toDigits (by decide) (by decide) hc

theorem padded_ne_nil (width n : Nat) : (padded width n).toList ≠ [] := by
  rw [toList_padded]
  intro h
  exact Nat.toDigits_ne_nil (List.append_eq_nil_iff.1 h).2

/-- **A padded number reads back.** -/
theorem natural?_padded (width n : Nat) : natural? 10 (padded width n).toList = some n := by
  rw [natural?_of_isDigit (padded_ne_nil width n) isDigit_of_mem_padded, toList_padded,
    Nat.ofDigitChars_append, Nat.ofDigitChars_replicate_zero, Nat.mul_zero,
    Nat.ofDigitChars_ten_toDigits]

/-- A number with no more digits than places is as wide as asked for. -/
theorem length_padded {width n : Nat} (hw : 0 < width) (hn : n < 10 ^ width) :
    (padded width n).toList.length = width := by
  have hle : (Nat.toDigits 10 n).length ≤ width :=
    (Nat.length_toDigits_le_iff (by decide) hw).2 hn
  rw [toList_padded, List.length_append, List.length_replicate]
  omega

end PageAudit.Numeral
