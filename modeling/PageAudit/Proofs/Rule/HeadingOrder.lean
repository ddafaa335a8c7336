import PageAudit.Document.Build
import PageAudit.Proofs.Rule.Naming

/-!
# Levels of headings

The rule on the order of headings compares each heading with the one before it and keeps no outline.
That is enough to see every level that is left out on the way down.

* `Rule.mem_headingOrder_iff`: what it finds are the places where a heading is more than one level below
  the one before it (`Rule.Jump`), and it is the lower heading that it shows.
* `Rule.findings_eq_neighbours`: it finds them by going through the pairs of neighbours.
* `Rule.unskipped_iff`: the levels never jump exactly if all levels between those of any two headings
  occur between the two (`Rule.Unskipped`).
* `Catalogue.headings_in_order`: all of this on every page with a root.
-/

namespace PageAudit

namespace Rule

/-! ## Levels -/

/-- The level of a heading is the number in its tag. -/
theorem level_of_mem {e : Element} (h : e.tag ∈ headingTags) :
    1 ≤ level e ∧ level e ≤ 6 ∧ e.tag = "h" ++ toString (level e) := by
  have tags : ∀ tag ∈ headingTags, ∃ i < 6, headingTags.idxOf? tag = some i ∧
      tag = "h" ++ toString (i + 1) := by decide
  obtain ⟨i, hi, hidx, htag⟩ := tags e.tag h
  have hlevel : level e = i + 1 := by rw [level, hidx]
  rw [hlevel]
  exact ⟨by omega, by omega, htag⟩

/-! ## Jumps -/

/-- The heading at `index` is `upper`, and the next one is more than one level below it. -/
structure Jump (xs : List Element) (index : Nat) (upper lower : Element) : Prop where
  here : xs[index]? = some upper
  next : xs[index + 1]? = some lower
  skips : level upper + 1 < level lower

/-- What is said of a jump. -/
def jumpSummary (upper lower : Element) : String :=
  "Heading level jumps from h" ++ toString (level upper) ++ " to h" ++ toString (level lower)

/-- What is found of the jump at `index`: the lower of the two headings, with both levels. -/
def jumpFinding (index : Nat) (upper lower : Element) : Finding :=
  (Locator.nth lower (index + 1)).finding (jumpSummary upper lower)

variable {xs : List Element}

@[simp] theorem skipsLevel_zero (e : Element) : skipsLevel xs 0 e = none := rfl

theorem skipsLevel_succ {i : Nat} {upper : Element} (h : xs[i]? = some upper) (e : Element) :
    skipsLevel xs (i + 1) e =
      if level upper + 1 < level e then some (jumpSummary upper e) else none := by
  simp only [skipsLevel, before?, h, Option.bind_eq_bind, Option.bind_some]
  rfl

theorem skipsLevel_eq_some_iff {i : Nat} {lower : Element} {summary : String}
    (h : xs[i]? = some lower) : skipsLevel xs i lower = some summary ↔
      ∃ j upper, i = j + 1 ∧ Jump xs j upper lower ∧ summary = jumpSummary upper lower := by
  cases i with
  | zero => simp
  | succ j =>
    have hj : j < xs.length := by
      have := (List.getElem?_eq_some_iff.1 h).1
      omega
    have here : xs[j]? = some xs[j] := List.getElem?_eq_getElem hj
    rw [skipsLevel_succ here]
    constructor
    · intro hs
      split at hs
      case isTrue hskips => exact ⟨j, xs[j], rfl, ⟨here, h, hskips⟩, (Option.some.inj hs).symm⟩
      case isFalse => cases hs
    · rintro ⟨j', upper, hj', hjump, rfl⟩
      obtain rfl : j = j' := by omega
      obtain rfl : xs[j] = upper := Option.some.inj (here.symm.trans hjump.here)
      rw [if_pos hjump.skips]

theorem mem_headingOrder_iff {f : Finding} : f ∈ findingsIn .nth (skipsLevel xs) xs ↔
    ∃ i upper lower, Jump xs i upper lower ∧ f = jumpFinding i upper lower := by
  rw [mem_findingsIn_iff]
  constructor
  · rintro ⟨i, lower, summary, he, hs, rfl⟩
    obtain ⟨j, upper, rfl, hjump, rfl⟩ := (skipsLevel_eq_some_iff he).1 hs
    exact ⟨j, upper, lower, hjump, rfl⟩
  · rintro ⟨j, upper, lower, hjump, rfl⟩
    exact ⟨j + 1, lower, _, hjump.next,
      (skipsLevel_eq_some_iff hjump.next).2 ⟨j, upper, rfl, hjump, rfl⟩, rfl⟩

theorem flagged_headingOrder_iff {scanned : List Element} {i : Nat} :
    Flagged xs (.ofScan scanned (findingsIn .nth (skipsLevel xs) xs)) i ↔
      ∃ j upper lower, i = j + 1 ∧ Jump xs j upper lower := by
  rw [flagged_ofScan_iff]
  constructor
  · rintro ⟨lower, summary, he, hs⟩
    obtain ⟨j, upper, hi, hjump, -⟩ := (skipsLevel_eq_some_iff he).1 hs
    exact ⟨j, upper, lower, hi, hjump⟩
  · rintro ⟨j, upper, lower, rfl, hjump⟩
    exact ⟨lower, _, hjump.next, (skipsLevel_eq_some_iff hjump.next).2 ⟨j, upper, rfl, hjump, rfl⟩⟩

/-! ## Neighbours -/

/-- The pairs of neighbours in a list, numbered by the first of the two. -/
def neighbours (xs : List Element) : List ((Element × Element) × Nat) :=
  (xs.zip xs.tail).zipIdx

theorem mem_neighbours_iff {upper lower : Element} {i : Nat} :
    ((upper, lower), i) ∈ neighbours xs ↔ xs[i]? = some upper ∧ xs[i + 1]? = some lower := by
  rw [neighbours, List.mem_zipIdx_iff_getElem?, List.getElem?_zip_eq_some]
  simp

/-- All elements but the first, numbered, are the second ones of the pairs. -/
theorem zipIdx_tail_eq : xs.tail.zipIdx 1 =
    (neighbours xs).map fun ((_, lower), i) => (lower, i + 1) := by
  have seconds : xs.tail = (xs.zip xs.tail).map (·.2) := (List.map_snd_zip (by simp)).symm
  conv_lhs => rw [seconds, List.zipIdx_succ, List.zipIdx_map]
  rw [neighbours, List.map_map]
  rfl

/-- **One walk over the pairs of neighbours** finds all jumps. -/
theorem findings_eq_neighbours : findingsIn .nth (skipsLevel xs) xs =
    (neighbours xs).filterMap fun ((upper, lower), i) =>
      if level upper + 1 < level lower then some (jumpFinding i upper lower) else none := by
  have skipFirst : findingsIn .nth (skipsLevel xs) xs = (xs.tail.zipIdx 1).filterMap fun x =>
      (skipsLevel xs x.2 x.1).map fun summary => (Locator.nth x.1 x.2).finding summary := by
    cases xs with
    | nil => rfl
    | cons e rest => rw [findingsIn, List.zipIdx_cons, List.filterMap_cons_none (by simp)]; rfl
  rw [skipFirst, zipIdx_tail_eq, List.filterMap_map]
  refine List.filterMap_congr fun pair hm => ?_
  obtain ⟨⟨upper, lower⟩, i⟩ := pair
  have here := (mem_neighbours_iff.1 hm).1
  show (skipsLevel xs (i + 1) lower).map _ = _
  rw [skipsLevel_succ here, apply_ite (Option.map _)]
  rfl

/-! ## Levels in between -/

/-- Whenever a heading is at a lower level than one before it, all levels between theirs occur between
the two. -/
def Unskipped (xs : List Element) : Prop :=
  ∀ (i j : Nat) (upper lower : Element), i < j → xs[i]? = some upper → xs[j]? = some lower →
    ∀ n, level upper < n → n < level lower →
      ∃ k between, i < k ∧ k < j ∧ xs[k]? = some between ∧ level between = n

/-- Without a jump a level can only be passed on the way down by a heading that has it. -/
theorem exists_level_between (h : ∀ i upper lower, ¬ Jump xs i upper lower) {i n : Nat}
    {upper : Element} (hi : xs[i]? = some upper) (hn : level upper < n) :
    ∀ j lower, i < j → xs[j]? = some lower → n < level lower →
      ∃ k between, i < k ∧ k < j ∧ xs[k]? = some between ∧ level between = n := by
  intro j
  induction j with
  | zero => intro _ hlt; omega
  | succ j ih =>
    intro lower hlt hj hl
    have hlen : j < xs.length := by
      have := (List.getElem?_eq_some_iff.1 hj).1
      omega
    have before : xs[j]? = some xs[j] := List.getElem?_eq_getElem hlen
    have step : level lower ≤ level xs[j] + 1 := by
      by_contra hskips
      exact h j xs[j] lower ⟨before, hj, by omega⟩
    -- The heading before is not the upper one, which is above the level `n`.
    have hne : i ≠ j := by
      rintro rfl
      obtain rfl : upper = xs[i] := Option.some.inj (hi.symm.trans before)
      omega
    by_cases heq : level xs[j] = n
    · exact ⟨j, xs[j], by omega, by omega, before, heq⟩
    · obtain ⟨k, between, hik, hkj, hk, hlevel⟩ := ih xs[j] (by omega) before (by omega)
      exact ⟨k, between, hik, by omega, hk, hlevel⟩

/-- **No level is left out** on the way down exactly if no two neighbours jump. -/
theorem unskipped_iff : Unskipped xs ↔ ∀ i upper lower, ¬ Jump xs i upper lower := by
  constructor
  · intro h i upper lower hjump
    obtain ⟨k, -, hik, hki, -⟩ := h i (i + 1) upper lower (by omega) hjump.here hjump.next
      (level upper + 1) (by omega) hjump.skips
    omega
  · intro h i j upper lower hij hi hj n hn hl
    exact exists_level_between h hi hn j lower hij hj hl

theorem findings_headingOrder_eq_nil_iff : findingsIn .nth (skipsLevel xs) xs = [] ↔ Unskipped xs := by
  rw [unskipped_iff, List.eq_nil_iff_forall_not_mem]
  constructor
  · intro h i upper lower hjump
    exact h _ (mem_headingOrder_iff.2 ⟨i, upper, lower, hjump, rfl⟩)
  · intro h f hf
    obtain ⟨i, upper, lower, hjump, -⟩ := mem_headingOrder_iff.1 hf
    exact h i upper lower hjump

end Rule

namespace Catalogue

open Rule

/-- **The order of headings.** On every page with a root the headings are the elements `h1` to `h6` in
document order, each of the level in its tag. The rule flags a heading exactly if it is not the first
and more than one level below the one before it, and says both levels; this is what one walk over the
pairs of neighbours finds. It finds nothing exactly if no level is ever left out on the way down. -/
theorem headings_in_order {d : Document} {limits : Limits} {p : Page}
    (hp : Page.ofDocument? d limits = some p) :
    (headings p = d.elements.filter fun e => headingTags.contains e.tag) ∧
    (∀ e ∈ headings p, 1 ≤ level e ∧ level e ≤ 6 ∧ e.tag = "h" ++ toString (level e)) ∧
    InOrder Element.outerHtml (headings p) (headingOrder.check p).findings ∧
    ¬ Flagged (headings p) (headingOrder.check p) 0 ∧
    (∀ i, Flagged (headings p) (headingOrder.check p) (i + 1) ↔
      ∃ upper lower, Jump (headings p) i upper lower) ∧
    (∀ f, f ∈ (headingOrder.check p).findings ↔
      ∃ i upper lower, Jump (headings p) i upper lower ∧ f = jumpFinding i upper lower) ∧
    ((headingOrder.check p).findings = (neighbours (headings p)).filterMap
      fun ((upper, lower), i) =>
        if level upper + 1 < level lower then some (jumpFinding i upper lower) else none) ∧
    ((headingOrder.check p).findings = [] ↔ Unskipped (headings p)) := by
  refine ⟨?list, ?levels, inOrder_findingsIn (fun _ _ => rfl) _ _, ?first, ?others,
    fun f => mem_headingOrder_iff, findings_eq_neighbours, findings_headingOrder_eq_nil_iff⟩
  case list => rw [elements_eq_of_page hp]; rfl
  case levels =>
    intro e he
    exact level_of_mem (by simpa using (List.mem_filter.1 he).2)
  case first =>
    intro hf
    obtain ⟨j, -, -, hj, -⟩ := flagged_headingOrder_iff.1 hf
    omega
  case others =>
    intro i
    constructor
    · intro hf
      obtain ⟨j, upper, lower, hj, hjump⟩ := flagged_headingOrder_iff.1 hf
      obtain rfl : i = j := by omega
      exact ⟨upper, lower, hjump⟩
    · rintro ⟨upper, lower, hjump⟩
      exact flagged_headingOrder_iff.2 ⟨i, upper, lower, rfl, hjump⟩

/-- A page with a heading of level one, one of level two and one of level four. -/
def threeHeadings : Document :=
  .ofSteps [.root "body" [], .element 0 "h1" [], .element 0 "h2" [], .element 0 "h4" []]

def threeHeadingsPage : Page :=
  ⟨threeHeadings, ⟨threeHeadings, 0⟩, {}⟩

/-- The third is flagged, and the level left out is the one above its own. -/
theorem headings_in_order_three : Page.ofDocument? threeHeadings {} = some threeHeadingsPage ∧
    Flagged (headings threeHeadingsPage) (headingOrder.check threeHeadingsPage) 2 ∧
    ¬ Flagged (headings threeHeadingsPage) (headingOrder.check threeHeadingsPage) 1 ∧
    ¬ Unskipped (headings threeHeadingsPage) := by
  have hp : Page.ofDocument? threeHeadings {} = some threeHeadingsPage := rfl
  obtain ⟨-, -, -, -, others, found, -, unskipped⟩ := headings_in_order hp
  have jump : Jump (headings threeHeadingsPage) 1 ⟨threeHeadings, 2⟩ ⟨threeHeadings, 3⟩ :=
    ⟨rfl, rfl, by decide⟩
  refine ⟨hp, (others 1).2 ⟨_, _, jump⟩, fun hf => ?_, fun h => ?_⟩
  · obtain ⟨upper, lower, here, next, skips⟩ := (others 0).1 hf
    obtain rfl : (⟨threeHeadings, 1⟩ : Element) = upper := Option.some.inj here
    obtain rfl : (⟨threeHeadings, 2⟩ : Element) = lower := Option.some.inj next
    exact absurd skips (by decide)
  · have none : (headingOrder.check threeHeadingsPage).findings = [] := unskipped.2 h
    have some := (found _).2 ⟨1, _, _, jump, rfl⟩
    rw [none] at some
    cases some

end Catalogue

end PageAudit
