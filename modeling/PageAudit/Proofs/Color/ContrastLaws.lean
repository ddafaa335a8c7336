import PageAudit.Color.Contrast
import Mathlib.Analysis.SpecialFunctions.Pow.Real

/-!
# Laws of contrast

Luminance and contrast in exact numbers, for every linearisation that does not fall from the darkest
channel to the lightest (`Linearises`).

* `ratioOf_eq`: the ratio compares the larger of two luminances with the smaller, so it is the same both
  ways.
* `one_le_ratioOf`, `ratioOf_le`, `ratioOf_eq_one_iff`: it lies between 1 and 21, and is 1 for equal
  luminances only.
* `ratioOf_mono`: it does not fall when the lighter gets lighter or the darker gets darker.
* `Required.value_ofText_le`: larger or bolder text does not need more.
* `contrast_laws`: these laws for colours.
* `linearises_light`: the curve that is used, in real numbers. Between its line and its power
  it falls a little, but no channel lies there.
-/

namespace PageAudit

/-- No channel of `c` is above that of `d`. -/
structure Rgb.AtMost (c d : Rgb) : Prop where
  red : c.red ≤ d.red
  green : c.green ≤ d.green
  blue : c.blue ≤ d.blue

namespace Contrast

variable {K : Type} [Field K] [LinearOrder K]

/-- It does not fall, from 0 for a channel of 0 to 1 for a channel of 255. -/
structure Linearises (linear : UInt8 → K) : Prop where
  mono : ∀ x y : UInt8, x ≤ y → linear x ≤ linear y
  zero : linear 0 = 0
  one : linear 255 = 1

/-! ## Luminance -/

section
variable {linear : UInt8 → K} (h : Linearises linear)
include h

theorem Linearises.nonneg (x : UInt8) : 0 ≤ linear x := by
  rw [← h.zero]
  exact h.mono 0 x (UInt8.le_iff_toNat_le.2 (Nat.zero_le _))

theorem luminance_black : luminance linear ⟨0, 0, 0⟩ = 0 := by
  simp [luminance, h.zero]

variable [IsStrictOrderedRing K]

theorem luminance_nonneg (c : Rgb) : 0 ≤ luminance linear c := by
  have red := h.nonneg c.red
  have green := h.nonneg c.green
  have blue := h.nonneg c.blue
  unfold luminance
  positivity

theorem luminance_mono {c d : Rgb} (hcd : c.AtMost d) : luminance linear c ≤ luminance linear d := by
  have red := h.mono _ _ hcd.red
  have green := h.mono _ _ hcd.green
  have blue := h.mono _ _ hcd.blue
  unfold luminance
  gcongr

theorem luminance_white : luminance linear ⟨255, 255, 255⟩ = 1 := by
  norm_num [luminance, h.one]

theorem luminance_le_one (c : Rgb) : luminance linear c ≤ 1 := by
  rw [← luminance_white h]
  have top : ∀ x : UInt8, x ≤ 255 := fun x =>
    UInt8.le_iff_toNat_le.2 (Nat.le_of_lt_succ x.toNat_lt)
  exact luminance_mono h ⟨top _, top _, top _⟩

end

/-! ## Ratios -/

/-- The larger luminance stands above the line, whichever comes first. -/
theorem ratioOf_eq (x y : K) : ratioOf x y = (max x y + 0.05) / (min x y + 0.05) := by
  unfold ratioOf
  split
  case isTrue hyx => rw [max_eq_left hyx, min_eq_right hyx]
  case isFalse hyx => rw [max_eq_right (le_of_not_ge hyx), min_eq_left (le_of_not_ge hyx)]

theorem ratioOf_comm (x y : K) : ratioOf x y = ratioOf y x := by
  rw [ratioOf_eq, ratioOf_eq, max_comm, min_comm]

section
variable [IsStrictOrderedRing K] {x y : K}

theorem min_add_pos (hx : 0 ≤ x) (hy : 0 ≤ y) : 0 < min x y + 0.05 :=
  add_pos_of_nonneg_of_pos (le_min hx hy) (by norm_num)

theorem one_le_ratioOf (hx : 0 ≤ x) (hy : 0 ≤ y) : 1 ≤ ratioOf x y := by
  rw [ratioOf_eq, one_le_div (min_add_pos hx hy)]
  gcongr
  exact min_le_max

theorem ratioOf_le (hx : 0 ≤ x) (hy : 0 ≤ y) (hx1 : x ≤ 1) (hy1 : y ≤ 1) : ratioOf x y ≤ 21 := by
  have hmax : max x y ≤ 1 := max_le hx1 hy1
  have hmin : 0 ≤ min x y := le_min hx hy
  rw [ratioOf_eq, div_le_iff₀ (min_add_pos hx hy)]
  linarith

theorem ratioOf_eq_one_iff (hx : 0 ≤ x) (hy : 0 ≤ y) : ratioOf x y = 1 ↔ x = y := by
  rw [ratioOf_eq, div_eq_one_iff_eq (min_add_pos hx hy).ne', add_left_inj, eq_comm]
  exact inf_eq_sup

/-- A lighter first and a darker second luminance do not make the ratio smaller, if the first is the
lighter one to begin with. -/
theorem ratioOf_mono {x' y' : K} (hyx : y ≤ x) (hx : x ≤ x') (hy : y' ≤ y) (hy' : 0 ≤ y') :
    ratioOf x y ≤ ratioOf x' y' := by
  have hyx' : y' ≤ x' := hy.trans (hyx.trans hx)
  have below : 0 < y' + 0.05 := add_pos_of_nonneg_of_pos hy' (by norm_num)
  have above : 0 ≤ x' + 0.05 := add_nonneg (hy'.trans hyx') (by norm_num)
  rw [ratioOf, ratioOf, if_pos hyx, if_pos hyx']
  exact div_le_div₀ above (by gcongr) below (by gcongr)

end

/-! ## Sizes -/

/-- The second size is at least the first. Any size is at least an unknown one. -/
inductive Grows : Option K → Option K → Prop
  | unknown (size? : Option K) : Grows none size?
  | known {size size' : K} : size ≤ size' → Grows (some size) (some size')

/-- The two colours contrast as much as text of this size and weight needs. -/
def Sufficient (linear : UInt8 → K) (size? : Option K) (bold : Bool) (a b : Rgb) : Prop :=
  (Required.ofText size? bold).value ≤ ratioBy linear a b

section
variable {size? size'? : Option K} {bold bold' : Bool}

/-- Large text stays large. -/
theorem isLarge_of_grows (hs : Grows size? size'?) (hb : bold = true → bold' = true)
    (large : isLarge size? bold = true) : isLarge size'? bold' = true := by
  cases hs with
  | unknown => cases large
  | known hs =>
    simp only [isLarge, Bool.or_eq_true, Bool.and_eq_true, decide_eq_true_eq] at large ⊢
    exact large.imp (·.trans hs) fun ⟨h14, h⟩ => ⟨h14.trans hs, hb h⟩

/-- **Larger or bolder text** needs no higher ratio. -/
theorem Required.value_ofText_le [IsStrictOrderedRing K] (hs : Grows size? size'?)
    (hb : bold = true → bold' = true) :
    ((ofText size'? bold').value : K) ≤ (ofText size? bold).value := by
  have less : (Required.large.value : K) ≤ Required.normal.value := by
    norm_num [Required.value]
  unfold ofText
  by_cases large : isLarge size? bold = true
  · rw [if_pos large, if_pos (isLarge_of_grows hs hb large)]
  · rw [if_neg large]
    split
    · exact less
    · exact le_rfl

end

/-- **The laws of contrast**, in exact numbers and for every linearisation. Luminance lies between 0 and
1 and does not fall in any channel. The ratio is the same both ways, nothing is divided by zero, it lies
between 1 and 21, it is 1 for equal luminances only and 21 for black and white. It does not fall when a
channel of the lighter colour rises or one of the darker colour falls. Text that grows or becomes bold
needs no higher ratio, so a contrast that was sufficient stays so. -/
theorem contrast_laws [IsStrictOrderedRing K] (linear : UInt8 → K) (h : Linearises linear) :
    (∀ c, 0 ≤ luminance linear c ∧ luminance linear c ≤ 1) ∧
    (∀ c d : Rgb, c.AtMost d → luminance linear c ≤ luminance linear d) ∧
    (∀ a b, ratioBy linear a b = ratioBy linear b a) ∧
    (∀ a b, min (luminance linear a) (luminance linear b) + 0.05 ≠ 0 ∧
      ratioBy linear a b = (max (luminance linear a) (luminance linear b) + 0.05) /
        (min (luminance linear a) (luminance linear b) + 0.05)) ∧
    (∀ a b, 1 ≤ ratioBy linear a b ∧ ratioBy linear a b ≤ 21) ∧
    (∀ a b, ratioBy linear a b = 1 ↔ luminance linear a = luminance linear b) ∧
    ratioBy linear ⟨0, 0, 0⟩ ⟨255, 255, 255⟩ = 21 ∧
    (∀ a a' b b' : Rgb, luminance linear b ≤ luminance linear a → a.AtMost a' → b'.AtMost b →
      ratioBy linear a b ≤ ratioBy linear a' b') ∧
    ∀ (size? size'? : Option K) (bold bold' : Bool), Grows size? size'? →
      (bold = true → bold' = true) →
      ((Required.ofText size'? bold').value : K) ≤ (Required.ofText size? bold).value ∧
      ∀ a b, Sufficient linear size? bold a b → Sufficient linear size'? bold' a b := by
  have nonneg := luminance_nonneg h
  have le_one := luminance_le_one h
  refine ⟨fun c => ⟨nonneg c, le_one c⟩, fun c d => luminance_mono h, fun a b => ratioOf_comm _ _,
    fun a b => ⟨(min_add_pos (nonneg a) (nonneg b)).ne', ratioOf_eq _ _⟩, fun a b => ⟨?_, ?_⟩,
    fun a b => ratioOf_eq_one_iff (nonneg a) (nonneg b), ?blackWhite, fun a a' b b' hba ha hb => ?_,
    fun size? size'? bold bold' hs hb => ⟨Required.value_ofText_le hs hb, fun a b => ?_⟩⟩
  · exact one_le_ratioOf (nonneg a) (nonneg b)
  · exact ratioOf_le (nonneg a) (nonneg b) (le_one a) (le_one b)
  case blackWhite =>
    rw [ratioBy, luminance_black h, luminance_white h, ratioOf_eq]
    norm_num
  · exact ratioOf_mono hba (luminance_mono h ha) (luminance_mono h hb) (nonneg b')
  · exact (Required.value_ofText_le hs hb).trans

/-! ## The curve -/

/-- The share of full light that a channel stands for. -/
noncomputable def share (channel : UInt8) : ℝ := channel.toNat / 255

/-- The linear light of a channel, in real numbers. -/
noncomputable def light (channel : UInt8) : ℝ :=
  if share channel ≤ 0.03928 then share channel / 12.92
  else ((share channel + 0.055) / 1.055) ^ (2.4 : ℝ)

theorem share_le_share {x y : UInt8} (h : x ≤ y) : share x ≤ share y := by
  have hxy : (x.toNat : ℝ) ≤ y.toNat := by exact_mod_cast UInt8.le_iff_toNat_le.1 h
  unfold share
  gcongr

/-- The line ends with a channel of 10. -/
theorem share_le_iff {x : UInt8} : share x ≤ 0.03928 ↔ x.toNat ≤ 10 := by
  unfold share
  rw [div_le_iff₀ (by norm_num)]
  constructor
  · intro h
    have below : (x.toNat : ℝ) < (11 : ℕ) := lt_of_le_of_lt h (by norm_num)
    exact Nat.le_of_lt_succ (Nat.cast_lt.1 below)
  · intro h
    have below : (x.toNat : ℝ) ≤ (10 : ℕ) := Nat.cast_le.2 h
    exact below.trans (by norm_num)

/-- The power at a channel of 11 is above the line at a channel of 10. -/
theorem line_le_power : (10 / 255 / 12.92 : ℝ) ≤ ((11 / 255 + 0.055) / 1.055) ^ (2.4 : ℝ) := by
  have base : (0 : ℝ) ≤ (11 / 255 + 0.055) / 1.055 := by norm_num
  have fifth : (((11 / 255 + 0.055) / 1.055 : ℝ) ^ (2.4 : ℝ)) ^ 5 =
      ((11 / 255 + 0.055) / 1.055) ^ 12 := by
    rw [← Real.rpow_natCast, ← Real.rpow_mul base, ← Real.rpow_natCast]
    norm_num
  refine le_of_pow_le_pow_left₀ (n := 5) (by norm_num) (Real.rpow_nonneg base _) ?_
  rw [fifth]
  norm_num

theorem light_of_low {x : UInt8} (h : x.toNat ≤ 10) : light x = share x / 12.92 :=
  if_pos (share_le_iff.2 h)

theorem light_of_high {x : UInt8} (h : 11 ≤ x.toNat) :
    light x = ((share x + 0.055) / 1.055) ^ (2.4 : ℝ) :=
  if_neg (share_le_iff.not.2 (Nat.not_le_of_lt h))

theorem share_nonneg (x : UInt8) : 0 ≤ share x := by
  unfold share
  positivity

theorem light_mono (x y : UInt8) (h : x ≤ y) : light x ≤ light y := by
  have shares := share_le_share h
  have nonneg := share_nonneg x
  rcases Nat.lt_or_ge 10 x.toNat with hx | hx
  · have hy : 10 < y.toNat := Nat.lt_of_lt_of_le hx (UInt8.le_iff_toNat_le.1 h)
    rw [light_of_high hx, light_of_high hy]
    gcongr
  rcases Nat.lt_or_ge 10 y.toNat with hy | hy
  · -- From the line to the power the channels 10 and 11 stand in between.
    have low : (x.toNat : ℝ) ≤ 10 := by exact_mod_cast hx
    have high : (11 : ℝ) ≤ y.toNat := by exact_mod_cast hy
    calc light x = x.toNat / 255 / 12.92 := light_of_low hx
      _ ≤ 10 / 255 / 12.92 := by gcongr
      _ ≤ ((11 / 255 + 0.055) / 1.055) ^ (2.4 : ℝ) := line_le_power
      _ ≤ ((y.toNat / 255 + 0.055) / 1.055) ^ (2.4 : ℝ) := by gcongr
      _ = light y := (light_of_high hy).symm
  · rw [light_of_low hx, light_of_low hy]
    gcongr

/-- **The curve** is a linearisation. -/
theorem linearises_light : Linearises light where
  mono := light_mono
  zero := by
    rw [light_of_low (Nat.zero_le _)]
    norm_num [share]
  one := by
    have top : (255 : UInt8).toNat = 255 := rfl
    have full : share 255 = 1 := by norm_num [share, top]
    rw [light_of_high (by decide), full]
    norm_num

/-- With the curve black on white is enough for small text, and so for large text. A grey on white
contrasts less than the same colour without its green. -/
theorem contrast_laws_light : Linearises light ∧
    ratioBy light ⟨0, 0, 0⟩ ⟨255, 255, 255⟩ = 21 ∧
    Sufficient light none false ⟨0, 0, 0⟩ ⟨255, 255, 255⟩ ∧
    Sufficient light (some 18) true ⟨0, 0, 0⟩ ⟨255, 255, 255⟩ ∧
    ratioBy light ⟨119, 119, 119⟩ ⟨255, 255, 255⟩ ≤ ratioBy light ⟨119, 0, 119⟩ ⟨255, 255, 255⟩ := by
  obtain ⟨-, mono, comm, -, -, -, blackWhite, raised, grown⟩ := contrast_laws light linearises_light
  have small : Sufficient light none false ⟨0, 0, 0⟩ ⟨255, 255, 255⟩ := by
    have normal : Required.ofText (none : Option ℝ) false = .normal := rfl
    rw [Sufficient, blackWhite, normal]
    norm_num [Required.value]
  refine ⟨linearises_light, blackWhite, small, ?_, ?_⟩
  · exact (grown none (some 18) false true (.unknown _) (fun _ => rfl)).2 _ _ small
  · rw [comm, comm ⟨119, 0, 119⟩]
    exact raised _ _ _ _ (mono _ _ ⟨by decide, by decide, by decide⟩)
      ⟨by decide, by decide, by decide⟩ ⟨by decide, by decide, by decide⟩

end Contrast

end PageAudit
