import Mathlib.Data.List.Basic

/-!
# Texts that end where a delimiter stands

When two concatenations are equal, so are their parts, provided that one can see where the first part
ends: it holds no stopping character and the second begins with one (`append_inj_of_stop`), or it is
written in a code that can be read off the front (`flatMap_inj_of_code`). Two that begin differently are
never equal (`append_ne_of_apart`).
-/

namespace PageAudit.Text

theorem append_inj_of_stop (stop : Char → Prop) :
    ∀ {a b r s : List Char}, (∀ c ∈ a, ¬ stop c) → (∀ c ∈ b, ¬ stop c) →
      (∀ c ∈ r.head?, stop c) → (∀ c ∈ s.head?, stop c) → a ++ r = b ++ s → a = b ∧ r = s
  | [], [], _, _, _, _, _, _, h => ⟨rfl, h⟩
  | [], c :: b, r, _, _, hb, hr, _, h => by
    simp only [List.nil_append, List.cons_append] at h
    exact absurd (hr c (by simp [h])) (hb c (by simp))
  | c :: a, [], _, s, ha, _, _, hs, h => by
    simp only [List.nil_append, List.cons_append] at h
    exact absurd (hs c (by simp [← h])) (ha c (by simp))
  | c :: a, d :: b, r, s, ha, hb, hr, hs, h => by
    simp only [List.cons_append, List.cons.injEq] at h
    obtain ⟨rfl, h⟩ := h
    obtain ⟨rfl, rfl⟩ := append_inj_of_stop stop (fun x hx => ha x (List.mem_cons_of_mem _ hx))
      (fun x hx => hb x (List.mem_cons_of_mem _ hx)) hr hs h
    exact ⟨rfl, rfl⟩

/-- A text written character by character is read back if every character is. -/
theorem flatMap_inj_of_code {code : Char → List Char} (hne : ∀ c, code c ≠ [])
    (hc : ∀ c d r s, code c ++ r = code d ++ s → c = d ∧ r = s) :
    ∀ {a b : List Char}, a.flatMap code = b.flatMap code → a = b
  | [], [], _ => rfl
  | [], d :: b, h => by simp [hne d] at h
  | c :: a, [], h => by simp [hne c] at h
  | c :: a, d :: b, h => by
    simp only [List.flatMap_cons] at h
    obtain ⟨rfl, ht⟩ := hc c d _ _ h
    rw [flatMap_inj_of_code hne hc ht]

theorem append_ne_of_apart :
    ∀ {a b : List Char}, (∃ x ∈ a.zip b, x.1 ≠ x.2) → ∀ r s, a ++ r ≠ b ++ s
  | [], _, h, _, _ => by simp at h
  | _ :: _, [], h, _, _ => by simp at h
  | c :: a, d :: b, h, r, s => by
    intro heq
    obtain ⟨rfl, rest⟩ := List.cons.inj heq
    exact append_ne_of_apart (by simpa using h) r s rest

end PageAudit.Text
