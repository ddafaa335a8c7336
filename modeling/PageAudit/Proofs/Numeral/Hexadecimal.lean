import PageAudit.Numeral.Digit
import PageAudit.Proofs.Text.Pieces
import PageAudit.Proofs.Text.Spelling
import Mathlib.Data.List.Nodup

/-!
# Hexadecimals read back

A hex digit is one of sixteen characters, in either case, and worth its place among them
(`digit?_eq_some_iff`). Two of them are a byte (`natural?_pair_eq_some_iff`), and the two digits of a
byte are worth that byte (`bytePair_hex`).
-/

namespace PageAudit.Numeral

/-- The hex digits, from zero on. -/
def hexAlphabet : List Char :=
  "0123456789abcdef".toList

theorem isAscii_of_mem_hexAlphabet : ∀ c ∈ hexAlphabet, Text.IsAscii c := by
  have all : (hexAlphabet.all fun c => Text.IsAscii c) = true := by decide
  simpa using all

/-- Beyond ASCII there are no digits. -/
theorem digit?_of_not_isAscii {c : Char} (hc : ¬ Text.IsAscii c) : digit? 16 c = none := by
  unfold Text.IsAscii at hc
  have above : ∀ x : Char, x.toNat < 128 → decide (c ≤ x) = false := by
    intro x hx
    refine decide_eq_false fun hle => ?_
    have hle : c.toNat ≤ x.toNat := hle
    omega
  rw [digit?, above '9' (by decide), above 'f' (by decide), above 'F' (by decide)]
  simp

theorem digit?_eq_idxOf? (c : Char) : digit? 16 c = hexAlphabet.idxOf? c.toLower := by
  by_cases hc : Text.IsAscii c
  · have ascii : ∀ n < 128,
        digit? 16 (Char.ofNat n) = hexAlphabet.idxOf? (Char.ofNat n).toLower := by
      decide +kernel
    have h := ascii c.toNat hc
    rwa [Char.ofNat_toNat] at h
  · rw [digit?_of_not_isAscii hc]
    refine (List.idxOf?_eq_none_iff.2 fun hm => hc ?_).symm
    exact Text.isAscii_of_isAscii_toLower (isAscii_of_mem_hexAlphabet _ hm)

/-- **A hex digit** is worth its place in the alphabet, and no other character is one. -/
theorem digit?_eq_some_iff {c : Char} {n : Nat} :
    digit? 16 c = some n ↔ hexAlphabet[n]? = some c.toLower := by
  rw [digit?_eq_idxOf?, List.idxOf?_eq_some_iff, List.getElem?_eq_some_iff]
  constructor
  · rintro ⟨hn, hc, -⟩
    exact ⟨hn, hc⟩
  · rintro ⟨hn, hc⟩
    refine ⟨hn, hc, fun j hj heq => ?_⟩
    have nodup : hexAlphabet.Nodup := by decide
    have hjn : j = n := (nodup.getElem_inj_iff).1 (heq.trans hc.symm)
    omega

theorem lt_of_getElem?_hexAlphabet {n : Nat} {c : Char} (h : hexAlphabet[n]? = some c) : n < 16 :=
  (List.getElem?_eq_some_iff.1 h).1

theorem isAscii_of_isDigit {c : Char} (h : isDigit 16 c = true) : Text.IsAscii c := by
  by_contra hn
  rw [isDigit, digit?_of_not_isAscii hn] at h
  cases h

/-! ## Bytes in two digits -/

/-- `a` and `b` are the digits, in lower case, of the byte `n`. -/
def BytePair (a b : Char) (n : UInt8) : Prop :=
  ∃ i j, hexAlphabet[i]? = some a ∧ hexAlphabet[j]? = some b ∧ n.toNat = 16 * i + j

theorem natural?_pair {a b : Char} : natural? 16 [a, b] =
    (digit? 16 a).bind fun i => (digit? 16 b).map fun j => 16 * i + j := by
  cases ha : digit? 16 a <;> cases hb : digit? 16 b <;>
    simp [natural?, ofDigits, isDigit, ha, hb, Nat.mul_comm]

theorem natural?_pair_eq_some_iff {a b : Char} {n : UInt8} :
    (natural? 16 [a, b]).map UInt8.ofNat = some n ↔ BytePair a.toLower b.toLower n := by
  rw [natural?_pair]
  constructor
  · intro h
    obtain ⟨m, hm, rfl⟩ := Option.map_eq_some_iff.1 h
    obtain ⟨i, hi, hm⟩ := Option.bind_eq_some_iff.1 hm
    obtain ⟨j, hj, rfl⟩ := Option.map_eq_some_iff.1 hm
    rw [digit?_eq_some_iff] at hi hj
    have hi16 := lt_of_getElem?_hexAlphabet hi
    have hj16 := lt_of_getElem?_hexAlphabet hj
    exact ⟨i, j, hi, hj, UInt8.toNat_ofNat_of_lt' (show _ < 256 by omega)⟩
  · rintro ⟨i, j, hi, hj, hn⟩
    rw [digit?_eq_some_iff.2 hi, digit?_eq_some_iff.2 hj, Option.bind_some, Option.map_some,
      Option.map_some, ← hn, UInt8.ofNat_toNat]

theorem getElem?_hexAlphabet : ∀ n < 16, hexAlphabet[n]? = some (hexDigit n) := by decide

/-- **A byte** is written in the two digits that are worth it. -/
theorem bytePair_hex (n : UInt8) : ∃ a b, hex n.toNat 2 = [a, b] ∧ BytePair a b n := by
  have hn : n.toNat < 256 := n.toNat_lt
  refine ⟨_, _, rfl, n.toNat / 16 % 16, n.toNat / 1 % 16, ?_, ?_, by omega⟩
  · exact getElem?_hexAlphabet _ (by omega)
  · exact getElem?_hexAlphabet _ (by omega)

end PageAudit.Numeral
