import PageAudit.Proofs.Audit.Independence
import Mathlib.Data.List.Induction
import Mathlib.Data.List.Perm.Basic

/-!
# Rules chosen by their ids

A selection takes one rule after the other out of those still to be had, and what is left changes its
order with every rule taken out.

* `Whole`: the rules chosen and those still to be had are the built-in rules, in some order. This is all
  that a request has to keep, and so it comes to one of three things (`Whole.request_cases`).
* `Selected`: what was chosen, in which order, and which ids name no rule. **Every list of ids** is
  selected so (`selected_ofIds`).
* `Auditor.evaluate_of_selected`: the report of the chosen rules lists what the report of all the rules
  has on the ids (`Report.listing`).
-/

namespace PageAudit

namespace Catalogue

theorem rule?_eq_some_iff {id : String} {r : Rule} : rule? id = some r ↔ r ∈ rules ∧ r.id = id := by
  unfold rule?
  constructor
  · intro h
    exact ⟨List.mem_of_find?_eq_some h, by simpa using List.find?_some h⟩
  · rintro ⟨hr, rfl⟩
    simpa using Auditor.find?_filterMap_id (f := some) (by simp) nodup_map_id_rules hr

theorem rule?_eq_none_iff {id : String} : rule? id = none ↔ id ∉ rules.map (·.id) := by
  simp [rule?]

end Catalogue

namespace Selection

/-! ## One request -/

/-- Nothing is lost when an entry is taken out. -/
theorem cons_takeOut_perm {α : Type} {xs : List α} {i : Nat} (hi : i < xs.length) :
    (xs[i] :: takeOut xs i).Perm xs := by
  rcases List.eq_nil_or_concat' xs with rfl | ⟨init, last, rfl⟩
  · cases hi
  · have put : takeOut (init ++ [last]) i = ((init ++ [last]).set i last).dropLast := by
      simp [takeOut]
    have hle : i ≤ init.length := by simpa [Nat.lt_succ_iff] using hi
    rw [put]
    rcases Nat.lt_or_eq_of_le hle with hlt | rfl
    · -- the entry is before the last one, which is put in its place
      have left : ((init ++ [last]).set i last).dropLast = init.set i last := by
        rw [List.set_append_left _ _ hlt, List.dropLast_concat]
      rw [left, List.getElem_append_left hlt]
      calc List.Perm (init[i] :: init.set i last) (init[i] :: last :: init.eraseIdx i) :=
            (List.set_perm_cons_eraseIdx hlt last).cons _
        List.Perm _ (last :: init[i] :: init.eraseIdx i) := .swap _ _ _
        List.Perm _ (last :: init) := (List.getElem_cons_eraseIdx_perm hlt).cons _
        List.Perm _ (init ++ [last]) := (List.perm_append_singleton last init).symm
    · simpa using (List.perm_append_singleton last init).symm

variable {s : Selection}

/-- The rules chosen and those still to be had are the built-in rules. -/
def Whole (s : Selection) : Prop := (s.chosen ++ s.available).Perm Catalogue.rules

theorem Whole.nodup (h : s.Whole) : (s.chosen.map (·.id) ++ s.available.map (·.id)).Nodup := by
  rw [← List.map_append, (h.map _).nodup_iff]
  exact Catalogue.nodup_map_id_rules

/-- **What a request comes to.** A built-in rule that was not chosen before is chosen now, and otherwise
no rule is. -/
theorem Whole.request_cases (h : s.Whole) (id : String) :
    (∃ r, Catalogue.rule? id = some r ∧ id ∉ s.chosen.map (·.id) ∧
      (s.request id).chosen = s.chosen ++ [r] ∧ (s.request id).unknown = s.unknown ∧
      (s.request id).Whole) ∨
    (id ∈ s.chosen.map (·.id) ∧ s.request id = s) ∨
    (Catalogue.rule? id = none ∧ s.request id = { s with unknown := s.unknown ++ [id] }) := by
  unfold request
  cases hf : s.available.findFinIdx? (·.id == id) with
  | some i =>
    have hid : s.available[i].id = id := by simpa using (List.findFinIdx?_eq_some_iff.1 hf).1
    have hmem : s.available[i] ∈ s.available := List.getElem_mem i.isLt
    refine .inl ⟨s.available[i], Catalogue.rule?_eq_some_iff.2 ⟨?_, hid⟩, fun hc => ?_, rfl, rfl, ?_⟩
    · exact h.subset (List.mem_append_right _ hmem)
    · exact (List.nodup_append.1 h.nodup).2.2 id hc id (List.mem_map.2 ⟨_, hmem, hid⟩) rfl
    · -- the rule goes from one list to the other
      unfold Whole
      rw [List.append_assoc]
      exact ((cons_takeOut_perm i.isLt).append_left s.chosen).trans h
  | none =>
    have hav : id ∉ s.available.map (·.id) := by
      simpa using List.findFinIdx?_eq_none_iff.1 hf
    by_cases hc : id ∈ s.chosen.map (·.id)
    · have known : s.chosen.any (·.id == id) = true := by simpa using hc
      exact .inr (.inl ⟨hc, if_pos known⟩)
    · have known : ¬ s.chosen.any (·.id == id) = true := by simpa using hc
      refine .inr (.inr ⟨?_, if_neg known⟩)
      rw [Catalogue.rule?_eq_none_iff, ← (h.map _).mem_iff, List.map_append, List.mem_append, not_or]
      exact ⟨hc, hav⟩

/-! ## Every list of ids -/

/-- **What a list of ids selects**: of those that name a rule the rule, once and where the id stands
first, and of the others every one in its place. -/
structure Selected (ids : List String) (s : Selection) : Prop where
  whole : s.Whole
  chosen : s.chosen = ids.eraseDups.filterMap Catalogue.rule?
  order : s.chosen.Pairwise fun r r' => ids.idxOf r.id < ids.idxOf r'.id
  unknown : s.unknown = ids.filter fun id => (Catalogue.rule? id).isNone

namespace Selected

variable {ids : List String} (h : Selected ids s)
include h

theorem mem_iff {r : Rule} : r ∈ s.chosen ↔ r ∈ Catalogue.rules ∧ r.id ∈ ids := by
  rw [h.chosen, List.mem_filterMap]
  simp only [Catalogue.rule?_eq_some_iff, List.mem_eraseDups]
  constructor
  · rintro ⟨id, hid, hr, rfl⟩
    exact ⟨hr, hid⟩
  · rintro ⟨hr, hid⟩
    exact ⟨r.id, hid, hr, rfl⟩

theorem nodup : (s.chosen.map (·.id)).Nodup :=
  (List.nodup_append.1 h.whole.nodup).1

theorem mem_map_id_iff {id : String} {r : Rule} (hr : Catalogue.rule? id = some r) :
    id ∈ s.chosen.map (·.id) ↔ id ∈ ids := by
  obtain ⟨hb, rfl⟩ := Catalogue.rule?_eq_some_iff.1 hr
  rw [List.mem_map]
  constructor
  · rintro ⟨r', hr', he⟩
    exact he ▸ (h.mem_iff.1 hr').2
  · exact fun hid => ⟨r, h.mem_iff.2 ⟨hb, hid⟩, rfl⟩

/-- The chosen rules keep their order when further ids follow. -/
theorem order_append (id : String) :
    s.chosen.Pairwise fun r r' => (ids ++ [id]).idxOf r.id < (ids ++ [id]).idxOf r'.id := by
  refine h.order.imp_of_mem fun {r r'} hr hr' hlt => ?_
  rwa [List.idxOf_append_of_mem (h.mem_iff.1 hr).2, List.idxOf_append_of_mem (h.mem_iff.1 hr').2]

theorem request (id : String) : Selected (ids ++ [id]) (s.request id) := by
  have dups : (ids ++ [id]).eraseDups = if id ∈ ids then ids.eraseDups else ids.eraseDups ++ [id] := by
    rw [List.eraseDups_append]
    by_cases hid : id ∈ ids <;> simp [List.removeAll, List.eraseDups_cons, hid]
  rcases h.whole.request_cases id with
    ⟨r, hr, hnew, chosen, unknown, whole⟩ | ⟨hc, hs⟩ | ⟨hr, hs⟩
  · -- the first time that a rule is named
    have hid : id ∉ ids := fun hid => hnew ((h.mem_map_id_iff hr).2 hid)
    refine ⟨whole, ?_, ?_, ?_⟩
    · rw [chosen, dups, if_neg hid, List.filterMap_append, ← h.chosen]
      simp [hr]
    · rw [chosen, List.pairwise_append]
      refine ⟨h.order_append id, List.pairwise_singleton _ _, fun a ha b hb => ?_⟩
      obtain rfl := List.mem_singleton.1 hb
      have ham := (h.mem_iff.1 ha).2
      rw [(Catalogue.rule?_eq_some_iff.1 hr).2, List.idxOf_append_of_mem ham,
        List.idxOf_append_of_notMem hid]
      exact Nat.lt_add_right _ (List.idxOf_lt_length_of_mem ham)
    · rw [unknown, List.filter_append, ← h.unknown]
      simp [hr]
  · -- a rule that was named before
    obtain ⟨r, hrc, rfl⟩ := List.mem_map.1 hc
    obtain ⟨hb, hid⟩ := h.mem_iff.1 hrc
    have hr : Catalogue.rule? r.id = some r := Catalogue.rule?_eq_some_iff.2 ⟨hb, rfl⟩
    rw [hs]
    refine ⟨h.whole, ?_, h.order_append _, ?_⟩
    · rw [dups, if_pos hid, h.chosen]
    · rw [List.filter_append, ← h.unknown]
      simp [hr]
  · -- no rule is named
    rw [hs]
    refine ⟨h.whole, ?_, h.order_append _, ?_⟩
    · rw [dups]
      split
      · exact h.chosen
      · rw [List.filterMap_append, ← h.chosen]
        simp [hr]
    · rw [List.filter_append, ← h.unknown]
      simp [hr]

end Selected

theorem selected_ofIds (ids : List String) : Selected ids (ofIds ids) := by
  induction ids using List.reverseRecOn with
  | nil => exact ⟨List.Perm.refl _, rfl, .nil, rfl⟩
  | append_singleton ids id ih =>
    have next : ofIds (ids ++ [id]) = (ofIds ids).request id := by
      simp [ofIds]
    rw [next]
    exact ih.request id

end Selection

/-! ## The report of the chosen rules -/

/-- The entries of a report for some ids, in the order in which these are first named. -/
def Report.listing (r : Report) (ids : List String) : Report :=
  { r with
    violations := ids.eraseDups.filterMap r.violation?
    passes := ids.eraseDups.filterMap r.pass? }

namespace Auditor

/-- Among entries made of rules with distinct ids, the one with some id is that of the rule with the
id. -/
theorem find?_filterMap_eq_bind {β : Type} {f : Rule → Option β} {id : β → String}
    (hf : ∀ x y, f x = some y → id y = x.id) (x : String) :
    (Catalogue.rules.filterMap f).find? (id · == x) = (Catalogue.rule? x).bind f := by
  cases hr : Catalogue.rule? x with
  | some r =>
    obtain ⟨hb, rfl⟩ := Catalogue.rule?_eq_some_iff.1 hr
    exact find?_filterMap_id hf Catalogue.nodup_map_id_rules hb
  | none =>
    refine List.find?_eq_none.2 fun y hy he => Catalogue.rule?_eq_none_iff.1 hr ?_
    obtain ⟨r, hb, hy⟩ := List.mem_filterMap.1 hy
    rw [beq_iff_eq, hf r y hy] at he
    exact List.mem_map.2 ⟨r, hb, he⟩

/-- **The report of the chosen rules** lists what the report of all the rules has on the ids. -/
theorem report_of_selected {ids : List String} {s : Selection} (h : s.Selected ids) (c : Config)
    (p : Page) (source : String) (time : Timestamp) :
    (⟨s.chosen, c⟩ : Auditor).report p source time =
      ((⟨Catalogue.rules, c⟩ : Auditor).report p source time).listing ids := by
  have listed : ∀ {β : Type} {f : Rule → Option β} {found : String → Option β},
      (∀ id, found id = (Catalogue.rule? id).bind f) →
      s.chosen.filterMap f = ids.eraseDups.filterMap found := by
    intro β f found he
    rw [h.chosen, List.filterMap_filterMap]
    exact List.filterMap_congr fun id _ => (he id).symm
  rw [Report.listing, report_eq ⟨s.chosen, c⟩]
  congr 1
  · refine listed fun id => ?_
    rw [Report.violation?, report_eq]
    exact find?_filterMap_eq_bind (fun _ _ => id_of_violationOf?) id
  · refine listed fun id => ?_
    rw [Report.pass?, report_eq]
    exact find?_filterMap_eq_bind (fun _ _ => id_of_passOf?) id

theorem evaluate_of_selected {ids : List String} {s : Selection} (h : s.Selected ids) (c : Config)
    (d : Document) (source : String) (time : Timestamp) :
    (⟨s.chosen, c⟩ : Auditor).evaluate d source time =
      ((⟨Catalogue.rules, c⟩ : Auditor).evaluate d source time).map (·.listing ids) :=
  evaluate_congr (a := ⟨Catalogue.rules, c⟩) (b := ⟨s.chosen, c⟩) rfl source time
    (fun p => report_of_selected h c p source time) d

end Auditor

end PageAudit
