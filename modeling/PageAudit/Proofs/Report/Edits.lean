import PageAudit.Proofs.Report.Reload
import PageAudit.Proofs.Report.Truncation

/-!
# Results under edits

What becomes of a violation while its report is cut, shaped, and written and read back, any number of
times and in any order (`Edit`). No other result has a part in it: an edit of a report does to each
violation what `Edit.apply` says (`Report.getElem?_edit?`), and so does a run of edits
(`Report.getElem?_run?`).

* `Edit.nodes_foldl_apply`: the findings listed are the first ones, up to the least of all caps.
* `Edit.total_foldl_apply`: the number remembered changes with a reload only.
* `Report.fate_of_counted`: both for every report and every run, and what the text says in the end.
-/

namespace PageAudit

/-- What is done to a report after an audit: one violation is cut, all results are shaped, or the
report is written as JSON and read back. -/
inductive Edit where
  | truncate (index max : Nat)
  | shape (limits : Limits)
  | reload

namespace Edit

/-- The cap that an edit sets for the violation at `index`. -/
def cap? (index : Nat) : Edit → Option Nat
  | truncate i max => if i = index then some max else none
  | shape limits => some limits.keep
  | reload => none

/-- All caps for the violation at `index`. -/
def caps (index : Nat) (edits : List Edit) : List Nat :=
  edits.filterMap (cap? index)

theorem caps_cons_of_some {index max : Nat} {e : Edit} (h : cap? index e = some max)
    (edits : List Edit) : caps index (e :: edits) = max :: caps index edits :=
  List.filterMap_cons_some h

theorem caps_cons_of_none {index : Nat} {e : Edit} (h : cap? index e = none) (edits : List Edit) :
    caps index (e :: edits) = caps index edits :=
  List.filterMap_cons_none h

/-- What an edit makes of the violation at `index`. -/
def apply (index : Nat) (v : RuleResult) : Edit → RuleResult
  | truncate i max => if i = index then v.truncate max else v
  | shape limits => v.truncate limits.keep
  | reload => v.uncounted

section
variable (index : Nat) (v : RuleResult)

theorem sameRule_apply (e : Edit) : v.SameRule (apply index v e) := by
  cases e with
  | truncate i max =>
    rw [apply]
    split
    · exact v.sameRule_truncate max
    · exact .refl v
  | shape limits => exact v.sameRule_truncate limits.keep
  | reload => exact ⟨rfl, rfl, rfl, rfl, rfl, rfl⟩

theorem nodes_apply (e : Edit) : (apply index v e).nodes =
    match cap? index e with
    | some max => v.nodes.take max
    | none => v.nodes := by
  cases e with
  | truncate i max =>
    rw [apply, cap?]
    by_cases hi : i = index
    · rw [if_pos hi, if_pos hi]
      rfl
    · rw [if_neg hi, if_neg hi]
  | shape limits => rfl
  | reload => rfl

/-- Cutting keeps the number that is remembered. -/
theorem total_apply {e : Edit} (he : e ≠ reload) : (apply index v e).total = v.total := by
  cases e with
  | truncate i max =>
    rw [apply]
    split
    · exact v.total_truncate max
    · rfl
  | shape limits => exact v.total_truncate limits.keep
  | reload => exact absurd rfl he

theorem total_apply_reload : (apply index v reload).total = v.nodes.length :=
  v.total_uncounted

/-! ## Runs -/

theorem sameRule_foldl_apply (edits : List Edit) : v.SameRule (edits.foldl (apply index) v) := by
  induction edits generalizing v with
  | nil => exact .refl v
  | cons e edits ih => exact (sameRule_apply index v e).trans (ih _)

omit index v in
theorem foldl_min_le (caps : List Nat) (n : Nat) : caps.foldl min n ≤ n := by
  induction caps generalizing n with
  | nil => exact Nat.le_refl n
  | cons c caps ih => exact Nat.le_trans (ih (min n c)) (Nat.min_le_left n c)

/-- **The findings listed after a run** are the first ones, as many as the least of all caps allows. -/
theorem nodes_foldl_apply (edits : List Edit) : (edits.foldl (apply index) v).nodes =
    v.nodes.take ((caps index edits).foldl min v.nodes.length) := by
  induction edits generalizing v with
  | nil => exact List.take_length.symm
  | cons e edits ih =>
    have nodes := nodes_apply index v e
    rw [List.foldl_cons, ih]
    cases hc : cap? index e with
    | none =>
      rw [hc] at nodes
      rw [nodes, caps_cons_of_none hc]
    | some max =>
      rw [hc] at nodes
      have hle : (caps index edits).foldl min (min v.nodes.length max) ≤ max :=
        Nat.le_trans (foldl_min_le _ _) (Nat.min_le_right _ _)
      rw [nodes, caps_cons_of_some hc, List.foldl_cons, List.length_take, Nat.min_comm max,
        List.take_take, Nat.min_eq_left hle]

/-- **The number remembered** stays until the report is read back. -/
theorem total_foldl_apply {edits : List Edit} (he : reload ∉ edits) :
    (edits.foldl (apply index) v).total = v.total := by
  induction edits generalizing v with
  | nil => rfl
  | cons e edits ih =>
    rw [List.mem_cons, not_or] at he
    rw [List.foldl_cons, ih _ he.2, total_apply index v (Ne.symm he.1)]

end

end Edit

namespace Report

/-- The report after an edit; reading it back could fail. -/
def edit? (r : Report) : Edit → Option Report
  | .truncate index max =>
    some { r with violations := r.violations.modify index (.truncate max) }
  | .shape limits => some (r.shape limits)
  | .reload => r.reload?

/-- The report after edits, one after the other. -/
def run? (r : Report) : List Edit → Option Report
  | [] => some r
  | e :: edits => (r.edit? e).bind (·.run? edits)

theorem run?_append (r : Report) (before after : List Edit) :
    r.run? (before ++ after) = (r.run? before).bind (·.run? after) := by
  induction before generalizing r with
  | nil => rfl
  | cons e before ih =>
    rw [List.cons_append, run?, run?, Option.bind_assoc]
    exact congrArg (r.edit? e).bind (funext ih)

/-- An edit of a report does to each violation what it does to that violation alone. -/
theorem getElem?_edit? {r r' : Report} {e : Edit} (h : r.edit? e = some r') (index : Nat) :
    r'.violations[index]? = r.violations[index]?.map (e.apply index) := by
  cases e with
  | truncate i max =>
    obtain rfl := Option.some.inj h
    rw [List.getElem?_modify]
    by_cases hi : i = index
    · simp [hi, Edit.apply]
    · simp [hi, Edit.apply]
  | shape limits =>
    obtain rfl := Option.some.inj h
    exact List.getElem?_map
  | reload =>
    rw [edit?, reload?, ofJsonText?_json_eq_map] at h
    obtain ⟨t, -, rfl⟩ := Option.map_eq_some_iff.1 h
    exact List.getElem?_map

/-- **A run does to each violation** what its edits do to that violation alone. -/
theorem getElem?_run? {r r' : Report} {edits : List Edit} (h : r.run? edits = some r')
    (index : Nat) :
    r'.violations[index]? = r.violations[index]?.map fun v => edits.foldl (Edit.apply index) v := by
  induction edits generalizing r with
  | nil =>
    obtain rfl := Option.some.inj h
    simp
  | cons e edits ih =>
    obtain ⟨r₁, h₁, h⟩ := Option.bind_eq_some_iff.1 h
    rw [ih h, getElem?_edit? h₁, Option.map_map]
    rfl

/-- A report with a timestamp that can be is read back, and no edit changes the timestamp. -/
theorem exists_edit? {r : Report} (h : r.timestamp.Representable) (e : Edit) :
    ∃ r', r.edit? e = some r' ∧ r'.timestamp = r.timestamp := by
  cases e with
  | truncate index max => exact ⟨_, rfl, rfl⟩
  | shape limits => exact ⟨_, rfl, rfl⟩
  | reload =>
    refine ⟨r.uncounted, ?_, rfl⟩
    rw [edit?, reload?, ofJsonText?_json h]

theorem exists_run? {r : Report} (h : r.timestamp.Representable) (edits : List Edit) :
    ∃ r', r.run? edits = some r' := by
  induction edits generalizing r with
  | nil => exact ⟨r, rfl⟩
  | cons e edits ih =>
    obtain ⟨r₁, h₁, ht⟩ := exists_edit? h e
    obtain ⟨r', h'⟩ := ih (ht ▸ h)
    exact ⟨r', Option.bind_eq_some_iff.2 ⟨r₁, h₁, h'⟩⟩

/-- **What has become of `v`**, the violation of `r` at `index`, when edits have made `r'` of `r`: it
is `w`, and the text of `r'` says of it what is said here. -/
structure Fate (r : Report) (index : Nat) (v : RuleResult) (edits : List Edit) (r' : Report)
    (w : RuleResult) : Prop where
  run : r.run? edits = some r'
  stays : r'.violations[index]? = some w
  rule : v.SameRule w
  nodes : w.nodes = v.nodes.take ((Edit.caps index edits).foldl min v.nodes.length)
  total_of_not_reloaded : .reload ∉ edits → w.total = v.nodes.length
  total_of_reloaded : ∀ before after, edits = before ++ .reload :: after → .reload ∉ after →
    ∃ r₁ w₁, r.run? before = some r₁ ∧ r₁.violations[index]? = some w₁ ∧
      w.total = w₁.nodes.length
  length_le_total : w.nodes.length ≤ w.total
  text : r'.text = String.join ((r'.violations.take index).map violationText)
    ++ (listedText w ++ hiddenText w ++ helpText w)
    ++ (String.join ((r'.violations.drop (index + 1)).map violationText) ++ r'.summaryText)
  more : ∀ k, hiddenText w = moreText k ↔ 0 < k ∧ k + w.nodes.length = w.total
  no_more : hiddenText w = "" ↔ w.total = w.nodes.length

theorem fate_of_run? {r r' : Report} {index : Nat} {v : RuleResult}
    (hv : r.violations[index]? = some v) (hcounted : v.counted = v.nodes.length)
    {edits : List Edit} (h : r.run? edits = some r') :
    r.Fate index v edits r' (edits.foldl (Edit.apply index) v) := by
  have stays := getElem?_run? h index
  rw [hv, Option.map_some] at stays
  have total : v.total = v.nodes.length := RuleResult.total_of_counted hcounted
  refine ⟨h, stays, Edit.sameRule_foldl_apply index v edits, Edit.nodes_foldl_apply index v edits,
    fun hr => (Edit.total_foldl_apply index v hr).trans total, ?_, RuleResult.length_le_total _,
    text_eq_of_getElem? stays, fun k => hiddenText_eq_iff, hiddenText_eq_empty_iff⟩
  rintro before after rfl hr
  -- the report as it was read back, and the violation before that
  rw [run?_append] at h
  obtain ⟨r₁, h₁, -⟩ := Option.bind_eq_some_iff.1 h
  have stays₁ := getElem?_run? h₁ index
  rw [hv, Option.map_some] at stays₁
  refine ⟨r₁, _, h₁, stays₁, ?_⟩
  rw [List.foldl_append, List.foldl_cons, Edit.total_foldl_apply index _ hr,
    Edit.total_apply_reload]

/-- **Truncation over whole runs.** Take a violation that counts the findings it lists, in a report
that can be written and read back, and any edits. The report stands up to them. The violation then
lists the first of its findings, up to the least cap set, and its total is the number that it listed
when the report was last read back, or at first. The total is never less than what is listed, and the
text has its line for the rest exactly if it is more. Shaping with two limits is shaping with the
smaller, in either order and also if they are the same, and changes nothing but what is listed. -/
theorem fate_of_counted {r : Report} (ht : r.timestamp.Representable) {index : Nat} {v : RuleResult}
    (hv : r.violations[index]? = some v) (hcounted : v.counted = v.nodes.length) :
    (∀ edits, ∃ r' w, r.Fate index v edits r' w) ∧
    (∀ (s : Report) (l : Limits), (s.shape l).shape l = s.shape l) ∧
    (∀ (s : Report) (l l' : Limits), l.maxNodesPerRule ≤ l'.maxNodesPerRule →
      (s.shape l).shape l' = s.shape l ∧ (s.shape l').shape l = s.shape l) ∧
    ∀ (s : Report) (l : Limits), s.CutTo l.keep (s.shape l) := by
  refine ⟨fun edits => ?_, fun s l => (s.shape_of_le (Nat.le_refl _)).1,
    fun s l l' h => s.shape_of_le h, cutTo_shape⟩
  obtain ⟨r', h⟩ := exists_run? ht edits
  exact ⟨r', _, fate_of_run? hv hcounted h⟩

/-- A violation with three findings, as it is made. -/
def threeFindings : RuleResult where
  id := "r"
  impact := .serious
  description := ""
  help := "h"
  helpUrl := "/"
  tags := []
  nodes := [⟨"<p>", ["p:nth-child(1)"], "a"⟩, ⟨"<p>", ["p:nth-child(2)"], "b"⟩,
    ⟨"<p>", ["p:nth-child(3)"], "c"⟩]

/-- A report with it, from the leap second at the end of 2016. -/
def leapReport : Report where
  url := "page"
  violations := [threeFindings]
  timestamp := ⟨1483228799, 1000000000⟩

/-- Cut to two findings, read back, and cut to one at least and then to none at all. -/
theorem fate_of_counted_three : leapReport.timestamp.Representable ∧
    leapReport.violations[0]? = some threeFindings ∧
    threeFindings.counted = threeFindings.nodes.length ∧
    ∃ r' w, leapReport.run? [.truncate 0 2, .reload, .shape ⟨0, 10⟩, .truncate 0 0] = some r' ∧
      r'.violations[0]? = some w ∧ w.nodes = [] ∧ w.total = 2 ∧ hiddenText w = moreText 2 := by
  have time : leapReport.timestamp.Representable :=
    ⟨by decide, by decide, fun _ => by decide⟩
  have listed : leapReport.violations[0]? = some threeFindings := rfl
  obtain ⟨r', w, fate⟩ := (fate_of_counted time listed rfl).1
    [.truncate 0 2, .reload, .shape ⟨0, 10⟩, .truncate 0 0]
  have nodes : w.nodes = [] := by
    rw [fate.nodes]
    rfl
  have total : w.total = 2 := by
    obtain ⟨r₁, w₁, h₁, stays, total⟩ := fate.total_of_reloaded [.truncate 0 2]
      [.shape ⟨0, 10⟩, .truncate 0 0] rfl (by simp)
    obtain rfl := Option.some.inj h₁
    obtain rfl := Option.some.inj stays
    exact total
  refine ⟨time, listed, rfl, r', w, fate.run, fate.stays, nodes, total, (fate.more 2).2 ?_⟩
  rw [nodes, total]
  decide

end Report

end PageAudit
