import PageAudit.Color.Rgb

/-!
# Contrast

The contrast of two colours after the Web Content Accessibility Guidelines: relative luminance is a
weighted sum of the linearised channels, and the contrast ratio compares two luminances. The formulas
hold for any kind of number and any linearisation; the audit computes them on doubles.
-/

namespace PageAudit

namespace Contrast

section Formulas

variable {α : Type} [Add α] [Mul α] [Div α] [OfScientific α]

/-- The weighted sum of the channels. -/
def luminance (linear : UInt8 → α) (c : Rgb) : α :=
  0.2126 * linear c.red + 0.7152 * linear c.green + 0.0722 * linear c.blue

/-- The lighter luminance over the darker, both raised by 0.05. -/
def ratioOf [LE α] [DecidableLE α] (a b : α) : α :=
  if b ≤ a then (a + 0.05) / (b + 0.05) else (b + 0.05) / (a + 0.05)

/-- The contrast ratio of two colours. -/
def ratioBy [LE α] [DecidableLE α] (linear : UInt8 → α) (a b : Rgb) : α :=
  ratioOf (luminance linear a) (luminance linear b)

end Formulas

section Thresholds

variable {α : Type} [LE α] [DecidableLE α] [OfNat α 14] [OfNat α 18]

/-- Text of 18 pixels and more, or of 14 and more if bold. Text of unknown size is not large. -/
def isLarge (size? : Option α) (bold : Bool) : Bool :=
  match size? with
  | some size => 18 ≤ size || (14 ≤ size && bold)
  | none => false

end Thresholds

/-- The ratio that large or normal text needs. -/
inductive Required where
  | large
  | normal
  deriving DecidableEq, Repr

namespace Required

def ofText {α : Type} [LE α] [DecidableLE α] [OfNat α 14] [OfNat α 18] (size? : Option α)
    (bold : Bool) : Required :=
  if isLarge size? bold then .large else .normal

def value {α : Type} [OfNat α 3] [OfScientific α] : Required → α
  | large => 3
  | normal => 4.5

def text : Required → String
  | large => "3"
  | normal => "4.5"

end Required

/-- The linear light of a channel: a line near black and a power curve above. -/
def linear (channel : UInt8) : Float :=
  let c := channel.toNat.toFloat / 255.0
  if c ≤ 0.03928 then c / 12.92 else ((c + 0.055) / 1.055).pow 2.4

def ratio (a b : Rgb) : Float :=
  ratioBy linear a b

end Contrast

def Rgb.luminance (c : Rgb) : Float :=
  Contrast.luminance Contrast.linear c

end PageAudit
