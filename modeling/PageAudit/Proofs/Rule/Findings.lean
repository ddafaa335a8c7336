import PageAudit.Rule.Basic
import PageAudit.Proofs.Text.Delimited
import Mathlib.Data.List.Forall2

/-!
# The findings of a numbered list

`InOrder html xs fs`: the findings `fs` show elements of `xs` at rising positions, each by the number
that its selector names and by the markup `html` of the element there.

* `inOrder_findingsIn`, `inOrder_firstFindings`: so do the findings of a scan, also of one that stops
  early, which finds a beginning of what the whole scan finds (`firstFindings_eq_take`).
* `InOrder.nodup_target`: no two of them have the same target, since a selector determines its number
  (`Locator.numbered_inj`).
* `findingsIn_eq_nil`: a scan finds nothing if it flags only elements of a kind that is not there.
-/

namespace PageAudit

/-! ## Selectors -/

theorem Locator.numbered_inj {t t' : String} {i j : Nat} (h : numbered t i = numbered t' j) :
    t = t' ∧ i = j := by
  have digits : ∀ n, ∀ c ∈ (Nat.toDigits 10 n).reverse, ¬ c = '(' := by
    intro n c hc rfl
    simpa using Nat.isDigit_of_mem_toDigits (by decide) (by decide) (List.mem_reverse.1 hc)
  have hl : (numbered t i).toList.reverse = (numbered t' j).toList.reverse := by rw [h]
  simp only [numbered, String.toList_append, Nat.toString_eq_repr, Nat.toList_repr,
    List.reverse_append, String.reduceToList, List.reverse_cons, List.reverse_nil, List.nil_append,
    List.cons_append, List.cons.injEq, true_and] at hl
  obtain ⟨hd, ht⟩ := Text.append_inj_of_stop (· = '(') (digits _) (digits _) (by simp) (by simp) hl
  have hn : i + 1 = j + 1 := by
    rw [← Nat.ofDigitChars_ten_toDigits (n := i + 1), List.reverse_injective hd,
      Nat.ofDigitChars_ten_toDigits]
  refine ⟨?_, by omega⟩
  simp only [List.cons.injEq, true_and, List.reverse_inj] at ht
  exact String.toList_injective ht

theorem Locator.nth_eq (e : Element) (i : Nat) : nth e i = ⟨e, numbered e.tag i, e.outerHtml⟩ := rfl

/-! ## What a scan finds -/

theorem mem_findingsIn_iff {locate : Element → Nat → Locator} {test : Test} {xs : List Element}
    {f : Finding} : f ∈ findingsIn locate test xs ↔
      ∃ i e summary, xs[i]? = some e ∧ test i e = some summary ∧
        f = (locate e i).finding summary := by
  constructor
  · intro hf
    obtain ⟨⟨e, i⟩, hm, hf⟩ := List.mem_filterMap.1 hf
    obtain ⟨summary, hs, rfl⟩ := Option.map_eq_some_iff.1 hf
    exact ⟨i, e, summary, List.mem_zipIdx_iff_getElem?.1 hm, hs, rfl⟩
  · rintro ⟨i, e, summary, he, hs, rfl⟩
    exact List.mem_filterMap.2 ⟨(e, i), List.mem_zipIdx_iff_getElem?.2 he, by simp [hs]⟩

/-! ## Findings in order -/

/-- `f` shows the element at `index` of `xs`: its target is the number of the element, counted from
one, and its markup is that of the element. -/
def ShowsAt (html : Element → String) (xs : List Element) (f : Finding) (index : Nat) : Prop :=
  ∃ e, xs[index]? = some e ∧ f.target = [Locator.numbered e.tag index] ∧ f.html = html e

/-- The findings show elements of `xs`, each further on than the one before. -/
def InOrder (html : Element → String) (xs : List Element) (findings : List Finding) : Prop :=
  ∃ indices : List Nat, indices.Pairwise (· < ·) ∧ List.Forall₂ (ShowsAt html xs) findings indices

theorem forall₂_filterMap {α β γ : Type} {R : β → γ → Prop} {f : α → Option β} {g : α → γ} :
    ∀ (xs : List α), (∀ x ∈ xs, ∀ y, f x = some y → R y (g x)) →
      List.Forall₂ R (xs.filterMap f) ((xs.filter fun x => (f x).isSome).map g)
  | [], _ => .nil
  | x :: xs, h => by
    have ih := forall₂_filterMap xs fun y hy => h y (List.mem_cons_of_mem _ hy)
    cases hx : f x with
    | none =>
      rw [List.filterMap_cons_none hx, List.filter_cons_of_neg (by simp [hx])]
      exact ih
    | some y =>
      rw [List.filterMap_cons_some hx, List.filter_cons_of_pos (by simp [hx])]
      exact .cons (h x (by simp) y hx) ih

theorem isEmpty_of_forall₂ {α β : Type} {R : α → β → Prop} {xs : List α} {ys : List β}
    (h : List.Forall₂ R xs ys) : xs.isEmpty = ys.isEmpty := by
  cases h <;> rfl

theorem exists_of_mem_forall₂ {α β : Type} {R : α → β → Prop} {xs : List α} {ys : List β}
    (h : List.Forall₂ R xs ys) : ∀ x ∈ xs, ∃ y ∈ ys, R x y := by
  induction h with
  | nil => simp
  | @cons x y xs ys hr _ ih =>
    intro z hz
    rcases List.mem_cons.1 hz with rfl | hz
    · exact ⟨y, by simp, hr⟩
    · obtain ⟨w, hw, hzw⟩ := ih z hz
      exact ⟨w, List.mem_cons_of_mem _ hw, hzw⟩

theorem pairwise_zipIdx (xs : List Element) : xs.zipIdx.Pairwise fun x y => x.2 < y.2 := by
  have h : (xs.zipIdx.map (·.2)).Pairwise (· < ·) := by
    rw [List.zipIdx_map_snd]
    exact List.pairwise_lt_range'
  exact List.pairwise_map.1 h

section
variable {html : Element → String} {locate : Element → Nat → Locator}
  (hl : ∀ e i, locate e i = ⟨e, Locator.numbered e.tag i, html e⟩)
include hl

theorem inOrder_findingsIn (test : Test) (xs : List Element) :
    InOrder html xs (findingsIn locate test xs) := by
  refine ⟨_, ?_, forall₂_filterMap (g := (·.2)) xs.zipIdx fun x hx f hf => ?_⟩
  · exact List.pairwise_map.2 ((pairwise_zipIdx xs).filter _)
  · obtain ⟨summary, -, rfl⟩ := Option.map_eq_some_iff.1 hf
    exact ⟨x.1, List.mem_zipIdx_iff_getElem?.1 hx, by simp [hl, Locator.finding],
      by simp [hl, Locator.finding]⟩

/-- **A scan** has a finding for a number exactly if the test has something to say of the element with
the number. -/
theorem exists_showsAt_iff {test : Test} {xs : List Element} {i : Nat} :
    (∃ f ∈ findingsIn locate test xs, ShowsAt html xs f i) ↔
      ∃ e summary, xs[i]? = some e ∧ test i e = some summary := by
  constructor
  · rintro ⟨f, hf, e, he, ht, -⟩
    obtain ⟨j, e', summary, he', hs, rfl⟩ := mem_findingsIn_iff.1 hf
    rw [hl] at ht
    obtain ⟨-, rfl⟩ := Locator.numbered_inj (List.cons.inj ht).1
    exact ⟨e', summary, he', hs⟩
  · rintro ⟨e, summary, he, hs⟩
    exact ⟨_, mem_findingsIn_iff.2 ⟨i, e, summary, he, hs, rfl⟩, e, he, by simp [hl, Locator.finding],
      by simp [hl, Locator.finding]⟩

end

/-- A scan that stops early finds a beginning of what the whole scan finds. -/
theorem firstFindings_eq_take (locate : Element → Nat → Locator) (test : Test) :
    ∀ (cap i : Nat) (xs : List Element), firstFindings locate test cap i xs =
      ((xs.zipIdx i).filterMap fun (e, i) =>
        (test i e).map fun summary => (locate e i).finding summary).take cap
  | 0, _, _ => by simp [firstFindings]
  | _ + 1, _, [] => by simp [firstFindings]
  | cap + 1, i, e :: xs => by
    rw [firstFindings]
    cases ht : test i e with
    | none => simp [ht, firstFindings_eq_take locate test (cap + 1) (i + 1) xs]
    | some summary => simp [ht, firstFindings_eq_take locate test cap (i + 1) xs]

theorem InOrder.take {html : Element → String} {xs : List Element} {findings : List Finding}
    (h : InOrder html xs findings) (n : Nat) : InOrder html xs (findings.take n) := by
  obtain ⟨indices, hp, hs⟩ := h
  exact ⟨indices.take n, hp.sublist (List.take_sublist n indices), List.forall₂_take n hs⟩

theorem inOrder_firstFindings {html : Element → String} {locate : Element → Nat → Locator}
    (hl : ∀ e i, locate e i = ⟨e, Locator.numbered e.tag i, html e⟩) (test : Test) (cap : Nat)
    (xs : List Element) : InOrder html xs (firstFindings locate test cap 0 xs) := by
  rw [firstFindings_eq_take]
  exact (inOrder_findingsIn hl test xs).take cap

theorem InOrder.nodup_target {html : Element → String} {xs : List Element}
    {findings : List Finding} (h : InOrder html xs findings) : (findings.map (·.target)).Nodup := by
  obtain ⟨indices, hp, hs⟩ := h
  induction hs with
  | nil => simp
  | @cons f i findings indices hf hs ih =>
    obtain ⟨hlt, hp⟩ := List.pairwise_cons.1 hp
    refine List.nodup_cons.2 ⟨fun hm => ?_, ih hp⟩
    obtain ⟨f', hf', ht⟩ := List.mem_map.1 hm
    obtain ⟨j, hj, e', -, he', -⟩ := exists_of_mem_forall₂ hs f' hf'
    obtain ⟨e, -, he, -⟩ := hf
    have hij : Locator.numbered e'.tag j = Locator.numbered e.tag i :=
      (List.cons.inj (he'.symm.trans (ht.trans he))).1
    have := (Locator.numbered_inj hij).2
    have := hlt j hj
    omega

/-! ## Nothing found -/

theorem findingsIn_eq_nil {locate : Element → Nat → Locator} {test : Test} {q : Element → Bool}
    {xs : List Element} (hq : ∀ i e summary, test i e = some summary → q e = true)
    (h : xs.filter q = []) : findingsIn locate test xs = [] := by
  refine List.filterMap_eq_nil_iff.2 fun x hx => ?_
  have hx' := List.fst_mem_of_mem_zipIdx hx
  cases ht : test x.2 x.1 with
  | none => simp [ht]
  | some summary => exact absurd (hq _ _ _ ht) (List.filter_eq_nil_iff.1 h _ hx')

end PageAudit
