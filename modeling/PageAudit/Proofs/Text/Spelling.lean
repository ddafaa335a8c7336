import PageAudit.Text.Case
import PageAudit.Text.Words
import Mathlib.Data.List.Forall2

/-!
# Blank and lower-case texts

What is left of a text when its blanks and its letter case are set aside.

* `Text.normalize_eq_empty_iff`: nothing is left of a text of blanks, and of no other.
* `Text.isOneOf_iff`: a phrase in ASCII is met exactly by the texts of which it is the lower case. What
  lower case is has its own definition, character by character (`Text.LowersTo`). Outside of ASCII it
  says no more than is needed: the Kelvin sign becomes a `k`, and nothing else becomes all ASCII.
-/

namespace PageAudit.Text

/-! ## Blanks -/

theorem wordsOf_eq_nil_iff {cs : List Char} : wordsOf cs = [] ↔ cs.all isBlank = true := by
  unfold wordsOf
  induction cs with
  | nil => simp [partsOf]
  | cons c cs ih =>
    rw [partsOf]
    by_cases hc : isBlank c = true
    · simpa [hc] using ih
    · -- the first part has `c` in it
      cases partsOf isBlank cs <;> simp [hc]

theorem singleSpaced_eq_nil_iff {cs : List Char} :
    singleSpaced cs = [] ↔ cs.all isBlank = true := by
  rw [← wordsOf_eq_nil_iff, singleSpaced]
  have nonempty : ∀ word ∈ wordsOf cs, word ≠ [] := by simp [wordsOf]
  cases hw : wordsOf cs with
  | nil => simp
  | cons word words =>
    have hword : word ≠ [] := nonempty word (by simp [hw])
    cases words <;> simp [hword]

/-- Single-spacing leaves nothing exactly when all is blank. -/
theorem normalize_eq_empty_iff {s : String} : normalize s = "" ↔ isBlankText s = true := by
  rw [← String.toList_eq_nil_iff, normalize, String.toList_ofList, singleSpaced_eq_nil_iff,
    isBlankText]

/-! ## Lower case -/

def IsAscii (c : Char) : Prop := c.toNat < 128

instance (c : Char) : Decidable (IsAscii c) := inferInstanceAs (Decidable (c.toNat < 128))

/-- Whether phrases are in ASCII is checked along their characters. -/
theorem isAscii_of_all {phrases : List String}
    (h : (phrases.all fun phrase => phrase.toList.all fun c => IsAscii c) = true) :
    ∀ phrase ∈ phrases, ∀ c ∈ phrase.toList, IsAscii c := by
  simpa using h

/-- The lower case of a character, as far as it can matter for a text in ASCII: what a character other
than the Kelvin sign becomes outside of ASCII is left open. -/
inductive LowersTo : Char → List Char → Prop
  | ascii {c : Char} : IsAscii c → LowersTo c [c.toLower]
  | kelvin : LowersTo '\u212A' ['k']
  | other {c : Char} {cs : List Char} : ¬ IsAscii c → c ≠ '\u212A' → (∃ x ∈ cs, ¬ IsAscii x) →
      LowersTo c cs

/-- `t` is the lower case of `s`, character by character. -/
def LowerCase (s t : String) : Prop :=
  ∃ pieces, List.Forall₂ LowersTo s.toList pieces ∧ t.toList = pieces.flatten

theorem isAscii_of_isAscii_toLower {c : Char} (h : IsAscii c.toLower) : IsAscii c := by
  unfold IsAscii Char.toNat Char.toLower at *
  split at h
  case isTrue hc => exact Nat.lt_of_le_of_lt hc.2 (by decide)
  case isFalse => exact h

/-- `lowerLetter` takes into ASCII what the lower case takes there. -/
theorem lowersTo_lowerLetter {c : Char} (h : IsAscii (lowerLetter c)) :
    LowersTo c [lowerLetter c] := by
  unfold lowerLetter at *
  split at h
  case isTrue hc =>
    rw [if_pos hc, hc]
    exact .kelvin
  case isFalse hc =>
    rw [if_neg hc]
    exact .ascii (isAscii_of_isAscii_toLower h)

theorem LowersTo.eq_lowerLetter {c : Char} {cs : List Char} (h : LowersTo c cs)
    (hcs : ∀ x ∈ cs, IsAscii x) : cs = [lowerLetter c] := by
  cases h with
  | ascii hc =>
    have hne : c ≠ '\u212A' := by
      rintro rfl
      exact absurd hc (by decide)
    rw [lowerLetter, if_neg hne]
  | kelvin => rfl
  | other _ _ hx =>
    obtain ⟨x, hx, hn⟩ := hx
    exact absurd (hcs x hx) hn

theorem flatten_eq_map_lowerLetter {cs : List Char} {pieces : List (List Char)}
    (h : List.Forall₂ LowersTo cs pieces) (hp : ∀ x ∈ pieces.flatten, IsAscii x) :
    pieces.flatten = cs.map lowerLetter := by
  induction h with
  | nil => rfl
  | @cons c piece cs pieces hc _ ih =>
    rw [List.flatten_cons] at hp ⊢
    obtain ⟨hpiece, hpieces⟩ := List.forall_mem_append.1 hp
    rw [hc.eq_lowerLetter hpiece, ih hpieces]
    rfl

/-- A text in ASCII is the lower case of another exactly if it is so letter by letter. -/
theorem lowerCase_iff {s t : String} (ht : ∀ c ∈ t.toList, IsAscii c) :
    LowerCase s t ↔ t.toList = s.toList.map lowerLetter := by
  constructor
  · rintro ⟨pieces, h, he⟩
    rw [he] at ht ⊢
    exact flatten_eq_map_lowerLetter h ht
  · intro he
    refine ⟨s.toList.map fun c => [lowerLetter c], ?_, ?_⟩
    · rw [List.forall₂_map_right_iff, List.forall₂_same]
      intro c hc
      refine lowersTo_lowerLetter (ht _ ?_)
      rw [he]
      exact List.mem_map_of_mem hc
    · rw [he, ← List.flatMap_def, List.map_eq_flatMap]

/-- **Phrases** in ASCII: a text meets one of them exactly if that phrase is its lower case. -/
theorem isOneOf_iff {phrases : List String} (h : ∀ phrase ∈ phrases, ∀ c ∈ phrase.toList, IsAscii c)
    {s : String} : isOneOf phrases s = true ↔ ∃ phrase ∈ phrases, LowerCase s phrase := by
  rw [isOneOf, List.contains_iff_mem]
  constructor
  · intro hm
    exact ⟨_, hm, (lowerCase_iff (h _ hm)).2 (String.toList_ofList ..)⟩
  · rintro ⟨phrase, hm, hl⟩
    rw [lowerCase_iff (h phrase hm)] at hl
    rwa [← hl, String.ofList_toList]

end PageAudit.Text
