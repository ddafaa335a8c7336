import PageAudit.Text.Case
import PageAudit.Text.Words
import Mathlib.Data.List.Basic
import Mathlib.Data.List.TakeWhile

/-!
# Trimming and cutting

What is left of a text without the blanks at its ends, and what stands between its separators.

* `Trims`: trimming said without an order of steps. `trimmed_eq_iff`: this is what trimming does, so
  blanks put around a text (`trimmed_pad`) and its letter case (`trimmed_map_toLower`) make no
  difference to it.
* `partsOf_eq_splitOnP`: parts are the library's, so a separator in a text divides its parts
  (`partsOf_append_sep`), and a list of parts is that of the parts joined (`partsOf_eq_iff`).
* `cutAt_eq_some_iff`: a cut is at the first separator.
-/

namespace PageAudit.Text

/-! ## Trimming -/

/-- `t` is `cs` without the blanks at both ends. -/
structure Trims (cs t : List Char) : Prop where
  around : ∃ before after, cs = before ++ t ++ after ∧ (∀ c ∈ before, isBlank c = true) ∧
    ∀ c ∈ after, isBlank c = true
  first : ∀ c ∈ t.head?, isBlank c = false
  last : ∀ c ∈ t.getLast?, isBlank c = false

section
variable {p : Char → Bool} {cs : List Char}

theorem dropWhile_append_of_head {before : List Char} (hb : ∀ c ∈ before, p c = true)
    (hf : ∀ c ∈ cs.head?, p c = false) : (before ++ cs).dropWhile p = cs := by
  rw [List.dropWhile_append_of_pos hb]
  cases cs with
  | nil => rfl
  | cons c cs => rw [List.dropWhile_cons_of_neg (by simp [hf c rfl])]

theorem dropEndWhile_append_of_last {after : List Char} (hl : ∀ c ∈ cs.getLast?, p c = false)
    (ha : ∀ c ∈ after, p c = true) : dropEndWhile p (cs ++ after) = cs := by
  rw [dropEndWhile, List.reverse_append, dropWhile_append_of_head (by simpa using ha),
    List.reverse_reverse]
  simpa [List.head?_reverse] using hl

/-- What is dropped from the end is a run of characters that satisfy `p`. -/
theorem exists_dropEndWhile_append (p : Char → Bool) (cs : List Char) :
    ∃ after, cs = dropEndWhile p cs ++ after ∧ ∀ c ∈ after, p c = true := by
  refine ⟨(cs.reverse.takeWhile p).reverse, ?_, fun c hc => ?_⟩
  · rw [dropEndWhile, ← List.reverse_append, List.takeWhile_append_dropWhile, List.reverse_reverse]
  · exact List.mem_takeWhile_imp (List.mem_reverse.1 hc)

theorem not_of_mem_head?_dropWhile (p : Char → Bool) (cs : List Char) :
    ∀ c ∈ (cs.dropWhile p).head?, p c = false := by
  intro c hc
  have h := List.head?_dropWhile_not p cs
  rwa [Option.mem_def.1 hc] at h

theorem not_of_mem_getLast?_dropEndWhile (p : Char → Bool) (cs : List Char) :
    ∀ c ∈ (dropEndWhile p cs).getLast?, p c = false := by
  rw [dropEndWhile, List.getLast?_reverse]
  exact not_of_mem_head?_dropWhile p cs.reverse

end

theorem Trims.trimmed_eq {cs t : List Char} (h : Trims cs t) : trimmed cs = t := by
  obtain ⟨⟨before, after, rfl, hb, ha⟩, first, last⟩ := h
  cases t with
  | nil =>
    rw [trimmed_eq_nil_iff, List.all_eq_true]
    intro c hc
    rw [List.append_nil, List.mem_append] at hc
    exact hc.elim (hb c) (ha c)
  | cons c t =>
    rw [trimmed, List.append_assoc, dropWhile_append_of_head hb (by simpa using first),
      dropEndWhile_append_of_last last ha]

theorem trims_trimmed (cs : List Char) : Trims cs (trimmed cs) := by
  obtain ⟨after, hafter, hblank⟩ := exists_dropEndWhile_append isBlank (cs.dropWhile isBlank)
  refine ⟨⟨cs.takeWhile isBlank, after, ?_, fun c => List.mem_takeWhile_imp, hblank⟩, fun c hc => ?_,
    not_of_mem_getLast?_dropEndWhile _ _⟩
  · rw [trimmed, List.append_assoc, ← hafter, List.takeWhile_append_dropWhile]
  · -- What is left begins as the text does once the blanks in front are gone.
    refine not_of_mem_head?_dropWhile isBlank cs c ?_
    rw [hafter]
    exact List.mem_head?_append_of_mem_head? hc

/-- **Trimming** takes the blanks off both ends and nothing else. -/
theorem trimmed_eq_iff {cs t : List Char} : trimmed cs = t ↔ Trims cs t :=
  ⟨fun h => h ▸ trims_trimmed cs, Trims.trimmed_eq⟩

/-- Blanks around a text make no difference. -/
theorem trimmed_pad {before after : List Char} (hb : ∀ c ∈ before, isBlank c = true)
    (ha : ∀ c ∈ after, isBlank c = true) (cs : List Char) :
    trimmed (before ++ cs ++ after) = trimmed cs := by
  obtain ⟨⟨inner, outer, hcs, hi, ho⟩, first, last⟩ := trims_trimmed cs
  refine trimmed_eq_iff.2 ⟨⟨before ++ inner, outer ++ after, ?_, ?_, ?_⟩, first, last⟩
  · rw [congrArg (before ++ · ++ after) hcs]
    simp only [List.append_assoc]
  · exact List.forall_mem_append.2 ⟨hb, hi⟩
  · exact List.forall_mem_append.2 ⟨ho, ha⟩

/-! ## Letter case -/

/-- The characters between the space and the next blank one. -/
theorem not_isBlank_of_lt {c : Char} (hlow : 0x20 < c.toNat) (hhigh : c.toNat < 0x85) :
    isBlank c = false := by
  simp [isBlank]
  omega

theorem toNat_toLower (c : Char) : c.toLower.toNat =
    if 65 ≤ c.toNat ∧ c.toNat ≤ 90 then c.toNat + 32 else c.toNat := by
  delta Char.toLower
  split
  case isTrue h =>
    have hlow : 65 ≤ c.toNat := h.1
    have hhigh : c.toNat ≤ 90 := h.2
    have sum : (c.val + 32).toNat = (c.toNat + 32) % 2 ^ 32 := UInt32.toNat_add _ _
    rw [if_pos ⟨hlow, hhigh⟩]
    exact sum.trans (Nat.mod_eq_of_lt (by omega))
  case isFalse h =>
    exact (if_neg h).symm

theorem toLower_toLower (c : Char) : c.toLower.toLower = c.toLower := by
  have once := toNat_toLower c
  have twice := toNat_toLower c.toLower
  rw [← Char.toNat_inj]
  split at once <;> split at twice <;> omega

/-- The capitals are what lower case changes. -/
theorem isUpper_eq_false_iff {c : Char} : c.isUpper = false ↔ c.toLower = c := by
  have lower := toNat_toLower c
  have capital : c.isUpper = decide (c.val ≥ 'A'.val ∧ c.val ≤ 'Z'.val) := rfl
  rw [capital, decide_eq_false_iff_not, ← Char.toNat_inj]
  constructor
  · intro h
    exact lower.trans (if_neg h)
  · intro h hup
    rw [h] at lower
    have moved : c.toNat = c.toNat + 32 := lower.trans (if_pos hup)
    omega

/-- No letter is blank, in either case. -/
theorem isBlank_toLower (c : Char) : isBlank c.toLower = isBlank c := by
  have lower := toNat_toLower c
  split at lower
  case isTrue h =>
    rw [not_isBlank_of_lt (by omega) (by omega), not_isBlank_of_lt (by omega) (by omega)]
  case isFalse => rw [Char.toNat_inj.1 lower]

theorem trimmed_map_toLower (cs : List Char) :
    trimmed (cs.map Char.toLower) = (trimmed cs).map Char.toLower := by
  obtain ⟨⟨before, after, hcs, hb, ha⟩, first, last⟩ := trims_trimmed cs
  refine trimmed_eq_iff.2 ⟨⟨before.map Char.toLower, after.map Char.toLower, ?_, ?_, ?_⟩, ?_, ?_⟩
  · rw [congrArg (List.map Char.toLower) hcs, List.map_append, List.map_append]
  · simpa [isBlank_toLower] using hb
  · simpa [isBlank_toLower] using ha
  · simpa [isBlank_toLower] using first
  · simpa [isBlank_toLower] using last

/-! ## Parts -/

theorem partsOf_eq_splitOnP (sep : Char → Bool) (cs : List Char) :
    partsOf sep cs = cs.splitOnP sep := by
  induction cs with
  | nil => rfl
  | cons c cs ih =>
    rw [partsOf, ih, List.splitOnP_cons_eq_if_modifyHead]
    split
    case isTrue => rfl
    case isFalse =>
      obtain ⟨part, parts, hp⟩ := List.exists_cons_of_ne_nil (List.splitOnP_ne_nil sep cs)
      rw [hp]
      rfl

theorem not_sep_of_mem_partsOf {sep : Char → Bool} {cs : List Char} :
    ∀ part ∈ partsOf sep cs, ∀ c ∈ part, sep c = false := by
  induction cs with
  | nil => simp [partsOf]
  | cons x cs ih =>
    rw [partsOf]
    by_cases hx : sep x = true
    · rw [if_pos hx]
      simpa using ih
    · rw [if_neg hx]
      have hx : sep x = false := by simpa using hx
      cases hp : partsOf sep cs with
      | nil => simpa using hx
      | cons part parts =>
        rw [hp] at ih
        obtain ⟨hpart, hparts⟩ := List.forall_mem_cons.1 ih
        exact List.forall_mem_cons.2 ⟨List.forall_mem_cons.2 ⟨hx, hpart⟩, hparts⟩

/-- A separator divides the parts into those before it and those after it. -/
theorem partsOf_append_sep {sep : Char → Bool} {x : Char} (hx : sep x = true) (a b : List Char) :
    partsOf sep (a ++ x :: b) = partsOf sep a ++ partsOf sep b := by
  simp only [partsOf_eq_splitOnP, List.splitOnP_append_cons a b hx]

/-- The parts of a text begin with what stands before the first separator. -/
theorem partsOf_append_cons {sep : Char → Bool} {part : List Char}
    (hpart : ∀ c ∈ part, sep c = false) {x : Char} (hx : sep x = true) (rest : List Char) :
    partsOf sep (part ++ x :: rest) = part :: partsOf sep rest := by
  rw [partsOf_append_sep hx, partsOf_eq_splitOnP sep part, List.splitOnP_eq_singleton hpart]
  rfl

/-- **The parts of a text** are pieces without a separator, and the text is what they make when they
are joined. -/
theorem partsOf_eq_iff {x : Char} {cs : List Char} {parts : List (List Char)} :
    partsOf (· == x) cs = parts ↔
      parts ≠ [] ∧ (∀ part ∈ parts, x ∉ part) ∧ cs = [x].intercalate parts := by
  have splits : partsOf (· == x) cs = cs.splitOn x := partsOf_eq_splitOnP _ cs
  constructor
  · rintro rfl
    refine ⟨?_, fun part hp hx => ?_, ?_⟩
    · rw [splits]
      exact List.splitOn_ne_nil x cs
    · simpa using not_sep_of_mem_partsOf part hp x hx
    · rw [splits, List.intercalate_splitOn]
  · rintro ⟨hne, hx, rfl⟩
    rw [splits, List.splitOn_intercalate x hx hne]

/-! ## Cutting in two -/

theorem cutAt_eq_none_iff {sep : Char} {cs : List Char} : cutAt sep cs = none ↔ sep ∉ cs := by
  induction cs with
  | nil => simp [cutAt]
  | cons c cs ih =>
    rw [cutAt]
    split
    case isTrue h => simp [h]
    case isFalse h => rw [Option.map_eq_none_iff, ih, List.mem_cons, not_or, and_iff_right (Ne.symm h)]

/-- **A text is cut** at the first separator. -/
theorem cutAt_eq_some_iff {sep : Char} {cs a b : List Char} :
    cutAt sep cs = some (a, b) ↔ sep ∉ a ∧ cs = a ++ sep :: b := by
  constructor
  · intro h
    induction cs generalizing a with
    | nil => simp [cutAt] at h
    | cons c cs ih =>
      rw [cutAt] at h
      split at h
      case isTrue hc =>
        obtain ⟨rfl, rfl⟩ := Prod.mk.inj (Option.some.inj h)
        exact ⟨List.not_mem_nil, by rw [hc, List.nil_append]⟩
      case isFalse hc =>
        obtain ⟨⟨a', b'⟩, hcut, hab⟩ := Option.map_eq_some_iff.1 h
        obtain ⟨rfl, rfl⟩ := Prod.mk.inj hab
        obtain ⟨hn, rfl⟩ := ih hcut
        exact ⟨List.not_mem_cons_of_ne_of_not_mem (Ne.symm hc) hn, rfl⟩
  · rintro ⟨hn, rfl⟩
    induction a with
    | nil => rw [List.nil_append, cutAt, if_pos rfl]
    | cons c a ih =>
      obtain ⟨hc, hn⟩ := not_or.1 (List.mem_cons.not.1 hn)
      rw [List.cons_append, cutAt, if_neg (Ne.symm hc), ih hn]
      rfl

end PageAudit.Text
