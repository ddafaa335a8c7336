import PageAudit.Report.Json
import PageAudit.Report.Text
import PageAudit.Proofs.Json.RoundTrip
import PageAudit.Proofs.Timestamp.RoundTrip
import Mathlib.Data.List.Forall2
import Mathlib.Data.List.Nodup

/-!
# Reports read back

A report written as JSON and read back is the report without the numbers of findings that its results
remember (`Report.uncounted`), for these are not written (`Report.ofJsonText?_json`).

* `Json.fields?_record`, `Json.list?_map`: what the reader of a record and of a list makes of a written
  one.
* `ofJson?_toJson`, for each kind of record: reading undoes writing.
* `reload_roundTrip`: what that means for the fields, the totals, the written form and the counts.
-/

namespace PageAudit

namespace Json

/-! ## Fields -/

/-- Among members with distinct names, the one of a name is found by it. -/
theorem find?_member {members : List (String × Json)} (h : (members.map (·.1)).Nodup) :
    ∀ m ∈ members, (members.map fun (name, value) => (some name, value)).find? (·.1 == some m.1) =
      some (some m.1, m.2) := by
  induction members with
  | nil => simp
  | cons x members ih =>
    obtain ⟨hx, hnd⟩ := List.nodup_cons.1 (List.map_cons ▸ h)
    intro m hm
    rcases List.mem_cons.1 hm with rfl | hm
    · simp
    · have hne : x.1 ≠ m.1 := fun he => hx (he ▸ List.mem_map.2 ⟨m, hm, rfl⟩)
      rw [List.map_cons, List.find?_cons_of_neg (by simpa using hne), ih hnd m hm]

/-- **The fields of a record** with distinct names, in their order. -/
theorem fields?_record {names : List String} (h : names.Nodup) {members : List (String × Json)}
    (hn : members.map (·.1) = names) :
    fields? names (.record members) = some (members.map (some ·.2)) := by
  subst hn
  have named : (members.map fun (name, value) => (some name, value)).any (·.1.isNone) = false := by
    simp
  have once : (members.map (·.1)).any (fun n => 1 <
      (members.map fun (name, value) => (some name, value)).countP (·.1 == some n)) = false := by
    rw [List.any_eq_false]
    intro n _
    have hcount : (members.map fun (name, value) => (some name, value)).countP (·.1 == some n) =
        (members.map (·.1)).count n := by
      rw [List.count, List.countP_map, List.countP_map]
      rfl
    rw [hcount, decide_eq_true_eq, not_lt]
    exact List.nodup_iff_count_le_one.1 h n
  have values : (members.map (·.1)).map (fun n =>
      ((members.map fun (name, value) => (some name, value)).find? (·.1 == some n)).map (·.2)) =
        members.map (some ·.2) := by
    rw [List.map_map]
    refine List.map_congr_left fun m hm => ?_
    rw [Function.comp_apply, find?_member h m hm, Option.map_some]
  unfold record fields?
  simp only [named, once, values]
  rfl

/-- The items of a list, each written and read back. -/
theorem list?_map {α : Type} {f : α → α} {write : α → Json} {read : Json → Option α}
    (h : ∀ x, read (write x) = some (f x)) (xs : List α) :
    list? read (some (.array (xs.map write))) = some (xs.map f) := by
  rw [list?]
  induction xs with
  | nil => rfl
  | cons x xs ih =>
    rw [List.map_cons, List.mapM_cons, h, ih]
    rfl

theorem list?_map_self {α : Type} {write : α → Json} {read : Json → Option α}
    (h : ∀ x, read (write x) = some x) (xs : List α) :
    list? read (some (.array (xs.map write))) = some xs := by
  rw [list?_map (f := id) h, List.map_id]

theorem list?_strings (xs : List String) : list? text? (some (strings xs)) = some xs := by
  have h : ∀ s, text? (str s) = some s := fun _ => rfl
  exact list?_map_self h xs

theorem textual_strings (xs : List String) : (strings xs).Textual := by
  refine .array fun x hx => ?_
  obtain ⟨s, -, rfl⟩ := List.mem_map.1 hx
  exact .str s

theorem textual_list {α : Type} {write : α → Json} (h : ∀ x, (write x).Textual) (xs : List α) :
    (Json.array (xs.map write)).Textual := by
  refine .array fun x hx => ?_
  obtain ⟨y, -, rfl⟩ := List.mem_map.1 hx
  exact h y

end Json

open Json

namespace Finding

theorem textual_toJson (f : Finding) : f.toJson.Textual := by
  refine .record ?_
  simp only [List.forall_mem_cons]
  exact ⟨.str _, textual_strings _, .str _, by simp⟩

theorem ofJson?_toJson (f : Finding) : ofJson? f.toJson = some f := by
  unfold ofJson? toJson
  rw [fields?_record]
  · simp only [List.map_cons, List.map_nil, list?_strings]
    rfl
  · decide
  · rfl

end Finding

namespace PassResult

theorem textual_toJson (p : PassResult) : p.toJson.Textual := by
  refine .record ?_
  simp only [List.forall_mem_cons]
  exact ⟨.str _, .str _, .str _, by simp⟩

theorem ofJson?_toJson (p : PassResult) : ofJson? p.toJson = some p := by
  unfold ofJson? toJson
  rw [fields?_record]
  · rfl
  · decide
  · rfl

end PassResult

theorem Impact.ofJson?_name (i : Impact) : ofJson? (.str i.name) = some i := by
  cases i <;> rfl

namespace RuleResult

/-- The result without the number of findings that it remembers. -/
def uncounted (r : RuleResult) : RuleResult :=
  { r with counted := 0 }

/-- The results agree in all that is written of them. -/
structure SameFields (a b : RuleResult) : Prop where
  id : a.id = b.id
  impact : a.impact = b.impact
  description : a.description = b.description
  help : a.help = b.help
  helpUrl : a.helpUrl = b.helpUrl
  tags : a.tags = b.tags
  nodes : a.nodes = b.nodes

theorem sameFields_map_uncounted (vs : List RuleResult) :
    List.Forall₂ SameFields (vs.map uncounted) vs := by
  induction vs with
  | nil => exact .nil
  | cons v vs ih => exact .cons ⟨rfl, rfl, rfl, rfl, rfl, rfl, rfl⟩ ih

theorem total_uncounted (r : RuleResult) : r.uncounted.total = r.uncounted.nodes.length :=
  Nat.zero_max _

theorem uncounted_eq_iff (r : RuleResult) : r.uncounted = r ↔ r.counted = 0 := by
  constructor
  · intro h
    exact (congrArg counted h).symm
  · intro h
    unfold uncounted
    rw [← h]

theorem map_uncounted_eq_iff {vs : List RuleResult} :
    vs.map uncounted = vs ↔ ∀ v ∈ vs, v.counted = 0 := by
  induction vs with
  | nil => simp
  | cons v vs ih =>
    rw [List.map_cons, List.cons.injEq, ih, uncounted_eq_iff, List.forall_mem_cons]

theorem textual_toJson (r : RuleResult) : r.toJson.Textual := by
  refine .record ?_
  simp only [List.forall_mem_cons]
  exact ⟨.str _, .str _, .str _, .str _, .str _, textual_strings _,
    textual_list Finding.textual_toJson _, by simp⟩

theorem ofJson?_toJson (r : RuleResult) : ofJson? r.toJson = some r.uncounted := by
  have nodes := list?_map_self Finding.ofJson?_toJson r.nodes
  unfold ofJson? toJson
  rw [fields?_record]
  · simp only [List.map_cons, List.map_nil, list?_strings, nodes, Option.bind_eq_bind,
      Option.bind_some, Impact.ofJson?_name]
    rfl
  · decide
  · rfl

end RuleResult

namespace Report

/-- The report without the numbers of findings that its results remember. -/
def uncounted (r : Report) : Report :=
  { r with
    violations := r.violations.map .uncounted
    incomplete := r.incomplete.map .uncounted }

theorem textual_toJson (r : Report) : r.toJson.Textual := by
  refine .record ?_
  simp only [List.forall_mem_cons]
  exact ⟨.str _, textual_list RuleResult.textual_toJson _, textual_list PassResult.textual_toJson _,
    textual_list RuleResult.textual_toJson _, .str _, by simp⟩

theorem ofJson?_toJson (r : Report) : ofJson? r.toJson =
    (Timestamp.parse? r.timestamp.text).map fun t => { r.uncounted with timestamp := t } := by
  have violations := list?_map RuleResult.ofJson?_toJson r.violations
  have incomplete := list?_map RuleResult.ofJson?_toJson r.incomplete
  have passes := list?_map_self PassResult.ofJson?_toJson r.passes
  unfold ofJson? toJson
  rw [fields?_record]
  · simp only [List.map_cons, List.map_nil, violations, incomplete, passes, Option.bind_eq_bind,
      Option.bind_some, str, text?]
    cases Timestamp.parse? r.timestamp.text <;> rfl
  · decide
  · rfl

/-- What a report is read back as, if its timestamp is. -/
theorem ofJsonText?_json_eq_map (r : Report) : ofJsonText? r.json =
    (Timestamp.parse? r.timestamp.text).map fun t => { r.uncounted with timestamp := t } := by
  unfold ofJsonText? json
  rw [parse?_pretty r.textual_toJson, Option.bind_some, ofJson?_toJson]

/-- **A report is read back** without the numbers of findings that its results remember. -/
theorem ofJsonText?_json {r : Report} (h : r.timestamp.Representable) :
    ofJsonText? r.json = some r.uncounted := by
  rw [ofJsonText?_json_eq_map, Timestamp.parse?_text h]
  rfl

/-! ## What is kept -/

theorem toJson_uncounted (r : Report) : r.uncounted.toJson = r.toJson := by
  have results : ∀ vs : List RuleResult,
      (vs.map RuleResult.uncounted).map RuleResult.toJson = vs.map RuleResult.toJson := fun vs => by
    rw [List.map_map]
    rfl
  unfold toJson uncounted
  simp only [results]

theorem json_uncounted (r : Report) : r.uncounted.json = r.json := by
  rw [json, toJson_uncounted, json]

theorem compact_uncounted (r : Report) : r.uncounted.compact = r.compact := by
  unfold compact uncounted
  rw [List.flatMap_map]
  rfl

theorem countAt_uncounted (r : Report) (i : Impact) : r.uncounted.countAt i = r.countAt i := by
  unfold countAt uncounted
  rw [List.countP_map]
  rfl

theorem hasViolationsAt_uncounted (r : Report) (i : Impact) :
    r.uncounted.hasViolationsAt i = r.hasViolationsAt i := by
  unfold hasViolationsAt uncounted
  rw [List.any_map]
  rfl

/-- Only a report that remembers no number of findings is the same afterwards. -/
theorem uncounted_eq_iff (r : Report) :
    r.uncounted = r ↔ ∀ v ∈ r.violations ++ r.incomplete, v.counted = 0 := by
  rw [List.forall_mem_append, ← RuleResult.map_uncounted_eq_iff,
    ← RuleResult.map_uncounted_eq_iff]
  constructor
  · intro h
    exact ⟨congrArg violations h, congrArg incomplete h⟩
  · rintro ⟨hv, hi⟩
    unfold uncounted
    rw [hv, hi]

/-- **Reports survive being written and read back.** For every report whose timestamp a text can name,
the reader accepts what the writer wrote, and the report that it gives has the same address, timestamp
and passes, and the same fields of each result in the same order. Of each result it counts the findings
that are listed. It equals the first report exactly if that one remembers no number of findings, and in
any case it is written the same, and has the same numbers of violations and the same compact form. -/
theorem reload_roundTrip {r : Report} (h : r.timestamp.Writable) :
    ∃ r', ofJsonText? r.json = some r' ∧
      r'.url = r.url ∧ r'.timestamp = r.timestamp ∧ r'.passes = r.passes ∧
      List.Forall₂ RuleResult.SameFields r'.violations r.violations ∧
      List.Forall₂ RuleResult.SameFields r'.incomplete r.incomplete ∧
      (∀ v ∈ r'.violations ++ r'.incomplete, v.total = v.nodes.length) ∧
      (r' = r ↔ ∀ v ∈ r.violations ++ r.incomplete, v.counted = 0) ∧
      r'.json = r.json ∧ (∀ i, r'.countAt i = r.countAt i) ∧
      (∀ i, r'.hasViolationsAt i = r.hasViolationsAt i) ∧ r'.compact = r.compact := by
  refine ⟨r.uncounted, ofJsonText?_json h.representable, rfl, rfl, rfl,
    RuleResult.sameFields_map_uncounted _, RuleResult.sameFields_map_uncounted _, ?_,
    r.uncounted_eq_iff, r.json_uncounted, r.countAt_uncounted, r.hasViolationsAt_uncounted,
    r.compact_uncounted⟩
  intro v hv
  rw [uncounted, ← List.map_append] at hv
  obtain ⟨w, -, rfl⟩ := List.mem_map.1 hv
  exact w.total_uncounted

/-- A report with quotes, a backslash and a control character in its texts, from before the year 0 and
between two seconds. -/
def oldReport : Report where
  url := "a \"b\" \\ \x01"
  violations := [{ id := "r", impact := .serious, description := "", help := "\n", helpUrl := "/"
                   tags := ["t", ""], nodes := [⟨"<p>", ["p", "\t"], "é"⟩] }]
  passes := [⟨"q", "", "h"⟩]
  timestamp := ⟨-62200000000, 120000⟩

theorem reload_roundTrip_oldReport : oldReport.timestamp.Writable ∧
    ∃ r', ofJsonText? oldReport.json = some r' ∧ r' ≠ oldReport ∧ r'.json = oldReport.json := by
  have writable : oldReport.timestamp.Writable := ⟨by decide, by decide⟩
  obtain ⟨r', read, -, -, -, -, -, -, same, json, -⟩ := reload_roundTrip writable
  refine ⟨writable, r', read, fun he => ?_, json⟩
  have := same.1 he
  revert this
  decide

end Report

end PageAudit
