import PageAudit.Document.Build
import PageAudit.Proofs.Audit.Limits
import PageAudit.Proofs.Rule.Naming
import PageAudit.Proofs.Style.Override

/-!
# The limit on contrast findings

The rule on contrast stops when it has found as much as the limits allow.

* `flagged_take_iff`: of a scan that stops, an element is flagged if its test says so and the scan has
  not stopped before it. What is counted towards the limit are findings, and not elements.
* `ContrastCandidate`, `LowContrast`: which elements the rule looks at, and what it finds.
* `Catalogue.contrast_cap`: so what is found under a limit is a beginning of what there is to find, on
  every page with a root.
-/

namespace PageAudit

/-! ## Scans that stop -/

/-- The findings on the elements before `e` come first, and then the finding on `e`, if there is one. -/
theorem findingsIn_append_cons (locate : Element → Nat → Locator) (test : Test)
    (before after : List Element) (e : Element) :
    ∃ rest, findingsIn locate test (before ++ e :: after) = findingsIn locate test before ++
      (((test before.length e).map (locate e before.length).finding).toList ++ rest) := by
  refine ⟨(after.zipIdx (before.length + 1)).filterMap fun x =>
    (test x.2 x.1).map fun summary => (locate x.1 x.2).finding summary, ?_⟩
  rw [findingsIn, List.zipIdx_append, List.filterMap_append, List.zipIdx_cons, Nat.zero_add]
  refine congrArg (findingsIn locate test before ++ ·) ?_
  cases ht : test before.length e with
  | none => simp [ht]
  | some summary => simp [ht]

theorem length_findingsIn (locate : Element → Nat → Locator) (test : Element → Option String)
    (xs : List Element) :
    (findingsIn locate (fun _ => test) xs).length = xs.countP fun e => (test e).isSome := by
  have count : xs.countP (fun e => (test e).isSome) =
      xs.zipIdx.countP fun x => (test x.1).isSome := by
    conv_lhs => rw [← List.zipIdx_map_fst 0 xs, List.countP_map]
    rfl
  rw [findingsIn, List.length_filterMap_eq_countP, count]
  simp

/-- **A scan that stops** after `cap` findings flags an element if its test has something to say and
fewer than `cap` elements have been flagged before. -/
theorem flagged_take_iff {scanned xs : List Element} {test : Element → Option String} {cap i : Nat}
    {e : Element} (he : xs[i]? = some e) :
    Flagged xs (.ofScan scanned ((findingsIn .nth (fun _ => test) xs).take cap)) i ↔
      (test e).isSome = true ∧ ((xs.take i).countP fun x => (test x).isSome) < cap := by
  obtain ⟨hi, hxs⟩ := List.getElem?_eq_some_iff.1 he
  have divided : xs = xs.take i ++ e :: xs.drop (i + 1) := by
    rw [← hxs, ← List.drop_eq_getElem_cons hi, List.take_append_drop]
  have length : (xs.take i).length = i := List.length_take_of_le (Nat.le_of_lt hi)
  obtain ⟨rest, found⟩ := findingsIn_append_cons .nth (fun _ => test) (xs.take i) (xs.drop (i + 1)) e
  rw [← divided, length] at found
  rw [← length_findingsIn .nth]
  constructor
  · rintro ⟨f, hf, e', he', ht, -⟩
    obtain ⟨j, x, summary, hx, hs, rfl⟩ := mem_findingsIn_iff.1 (List.mem_of_mem_take hf)
    obtain ⟨-, rfl⟩ := Locator.numbered_inj (List.cons.inj ht).1
    obtain rfl : e = x := Option.some.inj (he.symm.trans hx)
    refine ⟨Option.isSome_iff_exists.2 ⟨summary, hs⟩, ?_⟩
    by_contra hn
    -- Otherwise the scan has stopped, and the finding is on an earlier element.
    rw [found, List.take_append_of_le_length (Nat.le_of_not_lt hn)] at hf
    obtain ⟨k, y, _, hy, -, hf⟩ := mem_findingsIn_iff.1 (List.mem_of_mem_take hf)
    obtain ⟨-, rfl⟩ := Locator.numbered_inj (List.cons.inj (congrArg Finding.target hf)).1
    have hk : j < (xs.take j).length := (List.getElem?_eq_some_iff.1 hy).1
    omega
  · rintro ⟨hsome, hlt⟩
    obtain ⟨summary, hs⟩ := Option.isSome_iff_exists.1 hsome
    refine ⟨(Locator.nth e i).finding summary, ?_, e, he, rfl, rfl⟩
    obtain ⟨k, hk⟩ := Nat.exists_eq_add_of_lt hlt
    show _ ∈ (findingsIn .nth (fun _ => test) xs).take cap
    rw [found, hs, hk, Nat.add_assoc, List.take_length_add_append]
    exact List.mem_append_right _ List.mem_cons_self

namespace Rule

/-! ## What contrasts too little -/

/-- An element of text that declares both its colours in its own style. -/
structure ContrastCandidate (e : Element) : Prop where
  tag : e.tag ∈ textTags
  worded : Text.trim e.textContent ≠ ""
  declaresForeground : Style.Declares ((e.attr? "style").getD "") "color"
  declaresBackground : Style.Declares ((e.attr? "style").getD "") "background-color"

/-- The colours of an element can be read, and they contrast less than text of its size and weight
needs. -/
structure LowContrast (e : Element) (foreground background : Rgb) : Prop where
  readsForeground : (e.style.get? "color").bind Rgb.parse? = some foreground
  readsBackground : (e.style.get? "background-color").bind Rgb.parse? = some background
  low : ¬ Contrast.ratio foreground background ≥
    (Contrast.Required.ofText e.style.fontSize? e.style.isBold).value

def IsLowContrast (e : Element) : Prop := ∃ foreground background, LowContrast e foreground background

section
variable {e : Element} {i : Nat}

theorem contrastCandidate_iff : (textTags.contains e.tag &&
    (!Text.isBlankText e.textContent && declaresColors e.style)) = true ↔ ContrastCandidate e := by
  rw [Bool.and_eq_true, Bool.and_eq_true, declaresColors, Bool.and_eq_true, List.contains_iff_mem,
    Bool.not_eq_true', Element.style, Style.isSome_get?_iff, Style.isSome_get?_iff,
    ← Bool.not_eq_true, Text.isBlankText_iff_trim]
  constructor
  · rintro ⟨tag, worded, foreground, background⟩
    exact ⟨tag, worded, foreground, background⟩
  · rintro ⟨tag, worded, foreground, background⟩
    exact ⟨tag, worded, foreground, background⟩

instance : DecidablePred ContrastCandidate := fun _ => decidable_of_iff _ contrastCandidate_iff

theorem colors?_eq_some_iff {style : Style} {foreground background : Rgb} :
    colors? style = some (foreground, background) ↔
      (style.get? "color").bind Rgb.parse? = some foreground ∧
      (style.get? "background-color").bind Rgb.parse? = some background := by
  unfold colors?
  cases style.get? "color" with
  | none => simp
  | some color =>
    cases style.get? "background-color" with
    | none => cases Rgb.parse? color <;> simp
    | some ground => simp [Option.bind_eq_some_iff]

theorem lowContrast_eq_some_iff {summary : String} : lowContrast i e = some summary ↔
    ∃ foreground background, LowContrast e foreground background ∧
      summary = contrastSummary foreground background e.style.fontSize? e.style.isBold := by
  unfold lowContrast
  constructor
  · intro h
    obtain ⟨⟨foreground, background⟩, colors, h⟩ := Option.bind_eq_some_iff.1 h
    obtain ⟨readsForeground, readsBackground⟩ := colors?_eq_some_iff.1 colors
    dsimp only at h
    split at h
    case isTrue => cases h
    case isFalse low =>
      exact ⟨foreground, background, ⟨readsForeground, readsBackground, low⟩,
        (Option.some.inj h).symm⟩
  · rintro ⟨foreground, background, ⟨readsForeground, readsBackground, low⟩, rfl⟩
    refine Option.bind_eq_some_iff.2 ⟨(foreground, background),
      colors?_eq_some_iff.2 ⟨readsForeground, readsBackground⟩, ?_⟩
    dsimp only
    rw [if_neg low]

theorem isSome_lowContrast_iff : (lowContrast i e).isSome = true ↔ IsLowContrast e := by
  rw [Option.isSome_iff_exists]
  constructor
  · rintro ⟨summary, h⟩
    obtain ⟨foreground, background, low, -⟩ := lowContrast_eq_some_iff.1 h
    exact ⟨foreground, background, low⟩
  · rintro ⟨foreground, background, low⟩
    exact ⟨_, lowContrast_eq_some_iff.2 ⟨foreground, background, low, rfl⟩⟩

instance : DecidablePred IsLowContrast := fun _ => decidable_of_iff _ (isSome_lowContrast_iff (i := 0))

end

/-- The numbered list of the rule on contrast. -/
def coloredTexts (d : Document) : List Element :=
  d.elements.filter fun e => ContrastCandidate e

end Rule

namespace Catalogue

open Rule

theorem contrastCandidates_eq {d : Document} {limits : Limits} {p : Page}
    (hp : Page.ofDocument? d limits = some p) : contrastCandidates p = coloredTexts d := by
  rw [coloredTexts, elements_eq_of_page hp, contrastCandidates, Page.elements, Element.findAll,
    List.filter_filter]
  refine List.filter_congr fun e _ => ?_
  rw [Bool.eq_iff_iff, decide_eq_true_eq, ← contrastCandidate_iff, Bool.and_comm]

/-- **The limit on contrast findings.** On every document with a root there is one list of findings: on
the texts whose colours can be read and contrast too little, in document order, each with its number
among all texts that declare their colours. Under any limit the rule finds as much of the beginning of
this list as is allowed, and all of it if the limit does not matter. It applies if there is a text to
look at, whatever the limit. So a text that contrasts enough, or whose colours cannot be read, keeps its
number, is never flagged and takes no room. -/
theorem contrast_cap {d : Document} {root : Element} (hd : d.root = some root) :
    ∃ uncapped, InOrder Element.outerHtml (coloredTexts d) uncapped ∧
      (∀ f, f ∈ uncapped ↔ ∃ i e foreground background, (coloredTexts d)[i]? = some e ∧
        LowContrast e foreground background ∧ f = (Locator.nth e i).finding
          (contrastSummary foreground background e.style.fontSize? e.style.isBold)) ∧
      ∀ limits, ∃ p, Page.ofDocument? d limits = some p ∧
        ((colorContrast.check p).applicable = true ↔ ∃ e ∈ d.elements, ContrastCandidate e) ∧
        (colorContrast.check p).findings = uncapped.take limits.maxContrastFindings ∧
        ((coloredTexts d).length ≤ limits.maxContrastFindings →
          (colorContrast.check p).findings = uncapped) ∧
        ∀ i e, (coloredTexts d)[i]? = some e →
          (Flagged (coloredTexts d) (colorContrast.check p) i ↔ IsLowContrast e ∧
            ((coloredTexts d).take i).countP (fun x => IsLowContrast x) < limits.maxContrastFindings) := by
  have cap : ∀ limits, Page.ofDocument? d limits = some ⟨d, root, limits⟩ := fun limits => by
    rw [Page.ofDocument?, hd]
    rfl
  refine ⟨findingsIn .nth lowContrast (coloredTexts d),
    inOrder_findingsIn (fun _ _ => rfl) lowContrast _, fun f => ?found,
    fun limits => ⟨⟨d, root, limits⟩, cap limits, ?_⟩⟩
  case found =>
    rw [mem_findingsIn_iff]
    simp only [lowContrast_eq_some_iff]
    constructor
    · rintro ⟨i, e, summary, he, ⟨foreground, background, low, rfl⟩, rfl⟩
      exact ⟨i, e, foreground, background, he, low, rfl⟩
    · rintro ⟨i, e, foreground, background, he, low, rfl⟩
      exact ⟨i, e, _, he, ⟨foreground, background, low, rfl⟩, rfl⟩
  · rw [check_colorContrast, contrastCandidates_eq (cap limits)]
    refine ⟨?applicable, rfl, ?all, fun i e he => ?flagged⟩
    case applicable => simp [coloredTexts]
    case all =>
      intro hle
      refine List.take_of_length_le (Nat.le_trans ?_ hle)
      exact (length_findingsIn .nth (lowContrast 0) _).trans_le List.countP_le_length
    case flagged =>
      have count : ((coloredTexts d).take i).countP (fun x => IsLowContrast x) =
          ((coloredTexts d).take i).countP fun x => (lowContrast 0 x).isSome :=
        List.countP_congr fun x _ => by rw [decide_eq_true_eq, isSome_lowContrast_iff]
      rw [count, ← isSome_lowContrast_iff (i := 0)]
      exact flagged_take_iff he

/-- Two texts, the first in a colour that cannot be read. -/
def greyTexts : Document :=
  .ofSteps [.root "html" [],
    .element 0 "p" [⟨"style", "color: hsl(0, 0%, 50%); background-color: white"⟩], .text 1 "One",
    .element 0 "p" [⟨"style", "color: #aaaaaa; background-color: white"⟩], .text 2 "Two"]

/-- With room for one finding the first text is passed over, and the second is still looked at. -/
theorem contrast_cap_greyTexts : greyTexts.root = some ⟨greyTexts, 0⟩ ∧
    ∃ p, Page.ofDocument? greyTexts { maxContrastFindings := 1 } = some p ∧
      (colorContrast.check p).applicable = true ∧
      ¬ Flagged (coloredTexts greyTexts) (colorContrast.check p) 0 ∧
      (Flagged (coloredTexts greyTexts) (colorContrast.check p) 1 ↔ IsLowContrast ⟨greyTexts, 3⟩) := by
  have hd : greyTexts.root = some ⟨greyTexts, 0⟩ := rfl
  obtain ⟨uncapped, -, -, capped⟩ := contrast_cap hd
  obtain ⟨p, hp, applicable, -, -, flagged⟩ := capped { maxContrastFindings := 1 }
  have first : (coloredTexts greyTexts)[0]? = some ⟨greyTexts, 1⟩ := rfl
  have second : (coloredTexts greyTexts)[1]? = some ⟨greyTexts, 3⟩ := rfl
  have unread : ¬ IsLowContrast ⟨greyTexts, 1⟩ := by decide
  have before : ((coloredTexts greyTexts).take 1).countP (fun x => IsLowContrast x) < 1 := by decide
  obtain ⟨element, candidate⟩ := List.mem_filter.1 (List.mem_of_getElem? first)
  refine ⟨hd, p, hp, applicable.2 ⟨_, element, of_decide_eq_true candidate⟩, ?_, ?_⟩
  · rw [flagged 0 _ first]
    exact fun h => unread h.1
  · rw [flagged 1 _ second]
    exact and_iff_left before

end Catalogue

end PageAudit
