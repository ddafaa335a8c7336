import PageAudit.Report.Limits
import PageAudit.Report.Text
import Mathlib.Data.List.Forall2

/-!
# Cutting results short

A result that is cut keeps the first findings and the number that there were. Cutting twice is cutting
once (`RuleResult.truncate_truncate`), and so for a whole report (`Report.shape_shape`), of which
shaping changes nothing but the findings listed (`Report.cutTo_shape`).

What is not listed is counted by one line of the text (`Report.hiddenText_eq_iff`), at the end of the
findings of its result (`Report.text_eq_of_getElem?`).
-/

namespace PageAudit

namespace RuleResult

/-- The results are of one rule: they agree in all but the findings and their number. -/
structure SameRule (v w : RuleResult) : Prop where
  id : v.id = w.id
  impact : v.impact = w.impact
  description : v.description = w.description
  help : v.help = w.help
  helpUrl : v.helpUrl = w.helpUrl
  tags : v.tags = w.tags

theorem SameRule.refl (v : RuleResult) : v.SameRule v := ⟨rfl, rfl, rfl, rfl, rfl, rfl⟩

theorem SameRule.trans {u v w : RuleResult} (h : u.SameRule v) (h' : v.SameRule w) :
    u.SameRule w where
  id := h.id.trans h'.id
  impact := h.impact.trans h'.impact
  description := h.description.trans h'.description
  help := h.help.trans h'.help
  helpUrl := h.helpUrl.trans h'.helpUrl
  tags := h.tags.trans h'.tags

theorem sameRule_truncate (max : Nat) (v : RuleResult) : v.SameRule (v.truncate max) :=
  ⟨rfl, rfl, rfl, rfl, rfl, rfl⟩

@[simp] theorem nodes_truncate (max : Nat) (v : RuleResult) :
    (v.truncate max).nodes = v.nodes.take max := rfl

theorem length_le_total (v : RuleResult) : v.nodes.length ≤ v.total :=
  Nat.le_max_right _ _

/-- A result as it is made counts the findings it lists. -/
theorem total_of_counted {v : RuleResult} (h : v.counted = v.nodes.length) :
    v.total = v.nodes.length := by
  rw [total, h, Nat.max_self]

theorem hidden_add_length (v : RuleResult) : v.hidden + v.nodes.length = v.total :=
  Nat.sub_add_cancel v.length_le_total

@[simp] theorem total_truncate (max : Nat) (v : RuleResult) : (v.truncate max).total = v.total := by
  have hle : (v.nodes.take max).length ≤ v.total :=
    Nat.le_trans (List.length_take_le' max v.nodes) v.length_le_total
  exact Nat.max_eq_left hle

theorem truncate_truncate (m k : Nat) (v : RuleResult) :
    (v.truncate m).truncate k = v.truncate (min m k) := by
  have total : (v.truncate m).total = v.total := total_truncate m v
  unfold truncate at total ⊢
  simp only [total, List.take_take, Nat.min_comm]

/-- `w` is `v` with the first `max` findings only. -/
structure CutTo (max : Nat) (v w : RuleResult) : Prop where
  rule : v.SameRule w
  nodes : w.nodes = v.nodes.take max
  total : w.total = v.total

theorem cutTo_truncate (max : Nat) (v : RuleResult) : v.CutTo max (v.truncate max) where
  rule := v.sameRule_truncate max
  nodes := rfl
  total := v.total_truncate max

end RuleResult

namespace Limits

theorem one_le_keep (l : Limits) : 1 ≤ l.keep :=
  Nat.le_max_right _ _

theorem keep_mono {l l' : Limits} (h : l.maxNodesPerRule ≤ l'.maxNodesPerRule) :
    l.keep ≤ l'.keep := by
  unfold keep
  omega

end Limits

namespace Report

/-! ## Shaping -/

theorem shape_shape (r : Report) (l l' : Limits) : (r.shape l).shape l' =
    { r with
      violations := r.violations.map (RuleResult.truncate (min l.keep l'.keep))
      incomplete := r.incomplete.map (RuleResult.truncate (min l.keep l'.keep)) } := by
  have results : ∀ vs : List RuleResult,
      (vs.map (RuleResult.truncate l.keep)).map (RuleResult.truncate l'.keep) =
        vs.map (RuleResult.truncate (min l.keep l'.keep)) := fun vs => by
    rw [List.map_map]
    exact List.map_congr_left fun v _ => v.truncate_truncate l.keep l'.keep
  unfold shape
  simp only [results]

/-- **Shaping twice** is shaping once with the smaller limit, whichever comes first. -/
theorem shape_of_le (r : Report) {l l' : Limits} (h : l.maxNodesPerRule ≤ l'.maxNodesPerRule) :
    (r.shape l).shape l' = r.shape l ∧ (r.shape l').shape l = r.shape l := by
  rw [shape_shape, shape_shape, Nat.min_eq_left (Limits.keep_mono h),
    Nat.min_eq_right (Limits.keep_mono h)]
  exact ⟨rfl, rfl⟩

/-- `r'` is `r` but for its results, which list the first `max` findings of those in `r`. -/
structure CutTo (max : Nat) (r r' : Report) : Prop where
  url : r'.url = r.url
  timestamp : r'.timestamp = r.timestamp
  passes : r'.passes = r.passes
  violations : List.Forall₂ (RuleResult.CutTo max) r.violations r'.violations
  incomplete : List.Forall₂ (RuleResult.CutTo max) r.incomplete r'.incomplete

/-- **Shaping changes nothing else** in a report. -/
theorem cutTo_shape (r : Report) (l : Limits) : r.CutTo l.keep (r.shape l) := by
  have results : ∀ vs : List RuleResult,
      List.Forall₂ (RuleResult.CutTo l.keep) vs (vs.map (RuleResult.truncate l.keep)) := fun vs =>
    List.forall₂_map_right_iff.2 (List.forall₂_same.2 fun v _ => v.cutTo_truncate l.keep)
  exact ⟨rfl, rfl, rfl, results r.violations, results r.incomplete⟩

/-! ## The line for what is not listed -/

/-- What the text says of a result before that line: the rule and the findings listed. -/
def listedText (v : RuleResult) : String :=
  v.impact.paint ++ v.impact.name ++ plain ++ " [" ++ v.id ++ "] " ++ v.help ++ "\n"
    ++ String.join (v.nodes.map findingText)

/-- And after it. -/
def helpText (v : RuleResult) : String :=
  "  = help: " ++ v.helpUrl ++ "\n\n"

theorem violationText_eq (v : RuleResult) :
    violationText v = listedText v ++ hiddenText v ++ helpText v := by
  simp only [violationText, listedText, helpText, String.append_assoc]

theorem text_eq_of_getElem? {r : Report} {index : Nat} {v : RuleResult}
    (h : r.violations[index]? = some v) :
    r.text = String.join ((r.violations.take index).map violationText)
      ++ (listedText v ++ hiddenText v ++ helpText v)
      ++ (String.join ((r.violations.drop (index + 1)).map violationText) ++ r.summaryText) := by
  obtain ⟨hlt, rfl⟩ := List.getElem?_eq_some_iff.1 h
  have split : r.violations =
      r.violations.take index ++ r.violations[index] :: r.violations.drop (index + 1) := by simp
  unfold text
  rw [← violationText_eq]
  conv_lhs => rw [split]
  simp only [List.map_append, List.map_cons, String.join_append, String.join_cons,
    String.append_assoc]

/-- The line that says that `k` findings are not listed. -/
def moreText (k : Nat) : String :=
  "  ... and " ++ toString k ++ " more\n"

theorem moreText_ne_empty (k : Nat) : moreText k ≠ "" := by
  intro h
  have hl := congrArg String.toList h
  simp [moreText, String.toList_append] at hl

theorem moreText_inj {k m : Nat} (h : moreText k = moreText m) : k = m := by
  have hl := congrArg String.toList h
  simp only [moreText, String.toList_append, List.append_assoc, List.append_cancel_left_eq,
    List.append_cancel_right_eq, Nat.toString_eq_repr, Nat.toList_repr] at hl
  rw [← Nat.ofDigitChars_ten_toDigits (n := k), hl, Nat.ofDigitChars_ten_toDigits]

/-- **The line says how many findings are not listed**, and it is there exactly if some are not. -/
theorem hiddenText_eq_iff {v : RuleResult} {k : Nat} :
    hiddenText v = moreText k ↔ 0 < k ∧ k + v.nodes.length = v.total := by
  have total : v.hidden + v.nodes.length = v.total := v.hidden_add_length
  by_cases hpos : 0 < v.hidden
  · have shown : hiddenText v = moreText v.hidden := if_pos hpos
    rw [shown]
    constructor
    · intro h
      obtain rfl := moreText_inj h
      exact ⟨hpos, total⟩
    · rintro ⟨-, hk⟩
      rw [show v.hidden = k by omega]
  · have absent : hiddenText v = "" := if_neg hpos
    rw [absent]
    constructor
    · intro h
      exact absurd h.symm (moreText_ne_empty k)
    · rintro ⟨hk, hsum⟩
      omega

theorem hiddenText_eq_empty_iff {v : RuleResult} :
    hiddenText v = "" ↔ v.total = v.nodes.length := by
  have total : v.hidden + v.nodes.length = v.total := v.hidden_add_length
  by_cases hpos : 0 < v.hidden
  · have shown : hiddenText v = moreText v.hidden := if_pos hpos
    rw [shown]
    exact ⟨fun h => absurd h (moreText_ne_empty _), fun h => by omega⟩
  · have absent : hiddenText v = "" := if_neg hpos
    exact ⟨fun _ => by omega, fun _ => absent⟩

end Report

end PageAudit
