import PageAudit.Document.Markup
import PageAudit.Proofs.Text.Delimited

/-!
# Reading a tag back

Escaping keeps different values and different texts apart (`value_injective`, `text_injective`), and
it leaves no double quote in a value and no `<` in a text. So an opening tag determines its tag and
its attributes, whatever is written after it (`openingTag_append_inj`), if the names are such as a
reader of markup makes them (`TagOk`, `NameOk`).
-/

namespace PageAudit.Markup

/-- A tag that ends where a blank or `>` stands, and that is no closing tag. -/
def TagOk (tag : String) : Prop :=
  ' ' ∉ tag.toList ∧ '>' ∉ tag.toList ∧ tag.toList.head? ≠ some '/'

/-- A name that ends where `=` stands. -/
def NameOk (a : Attribute) : Prop := '=' ∉ a.name.toList

/-! ## Escaping -/

theorem escapeInValue_append_inj (c d : Char) (r s : List Char)
    (h : escapeInValue c ++ r = escapeInValue d ++ s) : c = d ∧ r = s := by
  unfold escapeInValue at h
  split at h <;> split at h <;>
    simp only [String.reduceToList, List.cons_append, List.nil_append, List.cons.injEq] at h <;>
    grind

theorem escapeInText_append_inj (c d : Char) (r s : List Char)
    (h : escapeInText c ++ r = escapeInText d ++ s) : c = d ∧ r = s := by
  unfold escapeInText at h
  split at h <;> split at h <;>
    simp only [String.reduceToList, List.cons_append, List.nil_append, List.cons.injEq] at h <;>
    grind

theorem value_injective {a b : String} (h : value a = value b) : a = b := by
  refine String.toList_injective (Text.flatMap_inj_of_code (fun c => ?_) escapeInValue_append_inj h)
  unfold escapeInValue
  split <;> simp

theorem text_injective {a b : String} (h : text a = text b) : a = b := by
  refine String.toList_injective (Text.flatMap_inj_of_code (fun c => ?_) escapeInText_append_inj h)
  unfold escapeInText
  split <;> simp

theorem text_append (a b : String) : text (a ++ b) = text a ++ text b := by
  simp [text]

theorem quote_not_mem_value {s : String} : ∀ c ∈ value s, ¬ c = '"' := by
  intro c hc
  obtain ⟨x, -, hx⟩ := List.mem_flatMap.1 hc
  unfold escapeInValue at hx
  split at hx <;> grind

theorem lt_not_mem_text {s : String} : ∀ c ∈ text s, ¬ c = '<' := by
  intro c hc
  obtain ⟨x, -, hx⟩ := List.mem_flatMap.1 hc
  unfold escapeInText at hx
  split at hx <;> grind

theorem text_eq_nil_iff {s : String} : text s = [] ↔ s = "" := by
  constructor
  · exact fun h => text_injective (h.trans (by simp [text]))
  · rintro rfl
    simp [text]

/-- What is written for a text that is not empty does not begin like a tag. -/
theorem text_append_ne_lt {s : String} (hs : s ≠ "") (r r' : List Char) :
    text s ++ r ≠ '<' :: r' := by
  intro h
  cases ht : text s with
  | nil => exact hs (text_eq_nil_iff.1 ht)
  | cons c cs =>
    rw [ht, List.cons_append, List.cons.injEq] at h
    exact lt_not_mem_text (s := s) c (by simp [ht]) h.1

/-! ## Opening tags -/

theorem flatMap_pair_append_inj {r s : List Char} :
    ∀ {as bs : List Attribute}, (∀ a ∈ as, NameOk a) → (∀ b ∈ bs, NameOk b) →
      as.flatMap pair ++ '>' :: r = bs.flatMap pair ++ '>' :: s → as = bs ∧ r = s
  | [], [], _, _, h => by simpa using h
  | [], b :: bs, _, _, h => by simp [pair] at h
  | a :: as, [], _, _, h => by simp [pair] at h
  | a :: as, b :: bs, ha, hb, h => by
    simp only [List.flatMap_cons, pair, List.append_assoc, List.cons_append, List.nil_append,
      List.cons.injEq, true_and] at h
    obtain ⟨hname, hrest⟩ := Text.append_inj_of_stop (· = '=')
      (fun c hc he => ha a (by simp) (he ▸ hc)) (fun c hc he => hb b (by simp) (he ▸ hc))
      (by simp) (by simp) h
    simp only [List.cons.injEq, true_and] at hrest
    obtain ⟨hvalue, hrest⟩ := Text.append_inj_of_stop (· = '"') quote_not_mem_value
      quote_not_mem_value (by simp) (by simp) hrest
    simp only [List.cons.injEq, true_and] at hrest
    obtain ⟨rfl, rfl⟩ := flatMap_pair_append_inj (fun x hx => ha x (List.mem_cons_of_mem _ hx))
      (fun x hx => hb x (List.mem_cons_of_mem _ hx)) hrest
    have hab : a = b := by
      cases a; cases b
      simp only [Attribute.mk.injEq]
      exact ⟨String.toList_injective hname, value_injective hvalue⟩
    exact ⟨by rw [hab], rfl⟩

/-- After the tag comes a blank or `>`. -/
theorem head?_flatMap_pair_append (as : List Attribute) (r : List Char) :
    ∀ c ∈ (as.flatMap pair ++ '>' :: r).head?, c = ' ' ∨ c = '>' := by
  cases as <;> simp [pair]

/-- **An opening tag reads back**, whatever follows it. -/
theorem openingTag_append_inj {t u : String} {as bs : List Attribute} {r s : List Char}
    (ht : TagOk t) (hu : TagOk u) (ha : ∀ a ∈ as, NameOk a) (hb : ∀ b ∈ bs, NameOk b)
    (h : openingTag t as ++ r = openingTag u bs ++ s) : t = u ∧ as = bs ∧ r = s := by
  simp only [openingTag, List.append_assoc, List.cons_append, List.nil_append, List.cons.injEq,
    true_and] at h
  have stays : ∀ {w : String}, TagOk w → ∀ c ∈ w.toList, ¬ (c = ' ' ∨ c = '>') := by
    rintro w ⟨hs, hg, -⟩ c hc (rfl | rfl)
    · exact hs hc
    · exact hg hc
  obtain ⟨htag, hrest⟩ := Text.append_inj_of_stop (fun c => c = ' ' ∨ c = '>') (stays ht) (stays hu)
    (head?_flatMap_pair_append as r) (head?_flatMap_pair_append bs s) h
  obtain ⟨rfl, rfl⟩ := flatMap_pair_append_inj ha hb hrest
  exact ⟨String.toList_injective htag, rfl, rfl⟩

/-- An opening tag does not begin like a closing one. -/
theorem openingTag_append_ne_closing {t : String} (ht : TagOk t) (as : List Attribute)
    (r r' : List Char) : openingTag t as ++ r ≠ '<' :: '/' :: r' := by
  intro h
  simp only [openingTag, List.append_assoc, List.cons_append, List.nil_append, List.cons.injEq,
    true_and] at h
  cases hc : t.toList with
  | nil =>
    rw [hc, List.nil_append] at h
    have := head?_flatMap_pair_append as r '/' (by simp [h])
    simp at this
  | cons c cs =>
    rw [hc, List.cons_append, List.cons.injEq] at h
    exact ht.2.2 (by simp [hc, h.1])

end PageAudit.Markup
