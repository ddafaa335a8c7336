import PageAudit.Proofs.Text.Pieces
import Mathlib.Data.List.Forall2

/-!
# Texts up to letter case

Two spellings of a name differ at most in the case of the letters A to Z (`Recased`). This is what
names are compared by (`sameName_iff`), and two names are stored alike exactly if it holds of them
(`recased_iff`).
-/

namespace PageAudit.Text

/-- One character, or one of the letters A to Z in its two cases. -/
inductive SameLetter : Char → Char → Prop
  | same (c : Char) : SameLetter c c
  | lower {a b : Char} : 'A' ≤ a → a ≤ 'Z' → b.toNat = a.toNat + 32 → SameLetter a b
  | upper {a b : Char} : 'A' ≤ b → b ≤ 'Z' → a.toNat = b.toNat + 32 → SameLetter a b

/-- The texts differ at most in the case of the letters A to Z. -/
def Recased (s t : String) : Prop := List.Forall₂ SameLetter s.toList t.toList

theorem toLower_of_small {a b : Char} (ha : 'A' ≤ a) (hz : a ≤ 'Z') (h : b.toNat = a.toNat + 32) :
    a.toLower = b.toLower := by
  have hlow : 65 ≤ a.toNat := ha
  have hhigh : a.toNat ≤ 90 := hz
  have lower := toNat_toLower a
  have same := toNat_toLower b
  rw [← Char.toNat_inj]
  split at lower <;> split at same <;> omega

theorem sameLetter_iff {a b : Char} : SameLetter a b ↔ a.toLower = b.toLower := by
  constructor
  · intro h
    cases h with
    | same => rfl
    | lower ha hz h => exact toLower_of_small ha hz h
    | upper hb hz h => exact (toLower_of_small hb hz h).symm
  · intro h
    have first := toNat_toLower a
    have second := toNat_toLower b
    rw [h] at first
    by_cases ha : 65 ≤ a.toNat ∧ a.toNat ≤ 90 <;> by_cases hb : 65 ≤ b.toNat ∧ b.toNat ≤ 90
    · obtain rfl : a = b := by
        rw [← Char.toNat_inj]
        rw [if_pos ha] at first
        rw [if_pos hb] at second
        omega
      exact .same a
    · rw [if_pos ha] at first
      rw [if_neg hb] at second
      exact .lower ha.1 ha.2 (by omega)
    · rw [if_neg ha] at first
      rw [if_pos hb] at second
      exact .upper hb.1 hb.2 (by omega)
    · obtain rfl : a = b := by
        rw [← Char.toNat_inj]
        rw [if_neg ha] at first
        rw [if_neg hb] at second
        omega
      exact .same a

/-- Two spellings are of one name if that is the same in lower case. -/
theorem recased_iff {s t : String} : Recased s t ↔ lower s = lower t := by
  have letters : SameLetter = fun a b => a.toLower = b.toLower := by
    funext a b
    exact propext sameLetter_iff
  have spelled : List.Forall₂ Eq (s.toList.map Char.toLower) (t.toList.map Char.toLower) ↔
      Recased s t := by
    rw [List.forall₂_map_left_iff, List.forall₂_map_right_iff, Recased, letters]
  rw [← spelled, List.forall₂_eq_eq_eq]
  exact ⟨congrArg String.ofList, fun h => String.ofList_injective h⟩

theorem sameName_iff {s t : String} : sameName s t = true ↔ Recased s t := by
  rw [sameName, beq_iff_eq, recased_iff]

instance (s t : String) : Decidable (Recased s t) := decidable_of_iff _ sameName_iff

theorem lower_lower (s : String) : lower (lower s) = lower s := by
  rw [lower, lower, String.toList_ofList, List.map_map]
  exact congrArg String.ofList (List.map_congr_left fun c _ => toLower_toLower c)

end PageAudit.Text
