import PageAudit.Proofs.Text.Line
import PageAudit.Proofs.Text.Spelling
import Mathlib.Data.List.Chain

/-!
# Words and single spaces

The words of a text and its single-spaced form.

* `Worded`: which words a text has, said without cutting it. `wordsOf_eq_iff`: the text is cut into
  these, so every text has one list of words.
* `SingleSpaced`: no blank at the ends, no blank but the space, no two of them together.
* `singleSpaced_eq_iff`: **single-spacing** yields the one single-spaced text with the same words. So a
  text is left as it is exactly if it is single-spaced, and two texts come to the same exactly if they
  have the same words.

That a blank divides the words before it from those after it (`wordsOf_append_blank`) is all that is
used of how a text is cut.
-/

namespace PageAudit.Text

/-! ## Words -/

/-- The `words` of a text are what stands between its blanks, each as long as it can be. -/
inductive Worded : List Char → List (List Char) → Prop
  | none {cs : List Char} : (∀ c ∈ cs, isBlank c = true) → Worded cs []
  | next {before word rest : List Char} {words : List (List Char)} :
    (∀ c ∈ before, isBlank c = true) → word ≠ [] → (∀ c ∈ word, isBlank c = false) →
    (∀ c ∈ rest.head?, isBlank c = true) → Worded rest words →
    Worded (before ++ word ++ rest) (word :: words)

section
variable {cs : List Char} {words : List (List Char)}

/-- A blank divides the words before it from those after it. -/
theorem wordsOf_append_blank {c : Char} (hc : isBlank c = true) (a b : List Char) :
    wordsOf (a ++ c :: b) = wordsOf a ++ wordsOf b := by
  rw [wordsOf, partsOf_append_sep hc, List.filter_append]
  rfl

/-- Blanks in front belong to no word. -/
theorem wordsOf_blank_append {before : List Char} (hb : ∀ c ∈ before, isBlank c = true)
    (cs : List Char) : wordsOf (before ++ cs) = wordsOf cs := by
  induction before with
  | nil => rfl
  | cons c before ih =>
    obtain ⟨hc, hb⟩ := List.forall_mem_cons.1 hb
    exact (wordsOf_append_blank hc [] (before ++ cs)).trans (ih hb)

theorem wordsOf_word {word : List Char} (hne : word ≠ []) (hw : ∀ c ∈ word, isBlank c = false) :
    wordsOf word = [word] := by
  rw [wordsOf, partsOf_eq_splitOnP, List.splitOnP_eq_singleton hw]
  simp [hne]

/-- A word ends where a blank stands. -/
theorem wordsOf_word_append {word rest : List Char} (hne : word ≠ [])
    (hw : ∀ c ∈ word, isBlank c = false) (hr : ∀ c ∈ rest.head?, isBlank c = true) :
    wordsOf (word ++ rest) = word :: wordsOf rest := by
  cases rest with
  | nil =>
    rw [List.append_nil, wordsOf_word hne hw]
    rfl
  | cons c rest =>
    have hc : isBlank c = true := hr c rfl
    rw [wordsOf_append_blank hc, wordsOf_word hne hw, ← List.singleton_append (l := rest),
      wordsOf_blank_append (by simpa using hc)]
    rfl

theorem Worded.wordsOf_eq (h : Worded cs words) : wordsOf cs = words := by
  induction h with
  | none hb => exact wordsOf_eq_nil_iff.2 (List.all_eq_true.2 hb)
  | next hb hne hw hr _ ih =>
    rw [List.append_assoc, wordsOf_blank_append hb, wordsOf_word_append hne hw hr, ih]

/-- The first word of a text may begin it. -/
theorem Worded.word_append {word rest : List Char} (hne : word ≠ [])
    (hw : ∀ c ∈ word, isBlank c = false) (hr : ∀ c ∈ rest.head?, isBlank c = true)
    (h : Worded rest words) : Worded (word ++ rest) (word :: words) :=
  @next [] word rest words (by simp) hne hw hr h

/-- Every text has words: a character in front is a further blank, or a word of its own, or the
beginning of the first word. -/
theorem exists_worded (cs : List Char) : ∃ words, Worded cs words := by
  induction cs with
  | nil => exact ⟨[], .none (by simp)⟩
  | cons c cs ih =>
    obtain ⟨words, h⟩ := ih
    by_cases hc : isBlank c = true
    case pos =>
      cases h with
      | none hb => exact ⟨[], .none (List.forall_mem_cons.2 ⟨hc, hb⟩)⟩
      | next hb hne hw hr h =>
        exact ⟨_, .next (List.forall_mem_cons.2 ⟨hc, hb⟩) hne hw hr h⟩
    case neg =>
      have alone : ∀ x ∈ [c], isBlank x = false := by simpa using hc
      cases h with
      | none hb =>
        have hr : ∀ x ∈ cs.head?, isBlank x = true := fun x hx => hb x (List.mem_of_mem_head? hx)
        exact ⟨[[c]], Worded.word_append (List.cons_ne_nil _ _) alone hr (.none hb)⟩
      | @next before word rest words hb hne hw hr h =>
        cases before with
        | nil =>
          have longer : ∀ x ∈ c :: word, isBlank x = false :=
            List.forall_mem_cons.2 ⟨alone c List.mem_cons_self, hw⟩
          exact ⟨(c :: word) :: words, h.word_append (List.cons_ne_nil _ _) longer hr⟩
        | cons b before =>
          have hr' : ∀ x ∈ (b :: before ++ word ++ rest).head?, isBlank x = true := fun x hx => by
            obtain rfl : b = x := Option.some.inj hx
            exact hb b List.mem_cons_self
          exact ⟨[c] :: word :: words,
            (Worded.next hb hne hw hr h).word_append (List.cons_ne_nil _ _) alone hr'⟩

/-- **The words of a text** are what it is cut into. -/
theorem wordsOf_eq_iff : wordsOf cs = words ↔ Worded cs words := by
  refine ⟨fun h => ?_, Worded.wordsOf_eq⟩
  obtain ⟨words', h'⟩ := exists_worded cs
  rwa [← h, h'.wordsOf_eq]

theorem mem_wordsOf {word : List Char} (h : word ∈ wordsOf cs) :
    word ≠ [] ∧ ∀ c ∈ word, isBlank c = false := by
  obtain ⟨hm, hne⟩ := List.mem_filter.1 h
  exact ⟨by simpa using hne, not_sep_of_mem_partsOf word hm⟩

end

/-! ## Single spaces -/

/-- No blank at either end, no blank but the space, and no two blanks together. -/
structure SingleSpaced (cs : List Char) : Prop where
  first : ∀ c ∈ cs.head?, isBlank c = false
  last : ∀ c ∈ cs.getLast?, isBlank c = false
  spaces : ∀ c ∈ cs, isBlank c = true → c = ' '
  apart : cs.IsChain fun a b => isBlank a = false ∨ isBlank b = false

section
variable {cs t word rest : List Char} {words : List (List Char)}

theorem singleSpaced_word (hw : ∀ c ∈ word, isBlank c = false) : SingleSpaced word where
  first c hc := hw c (List.mem_of_mem_head? hc)
  last c hc := hw c (List.mem_of_mem_getLast? hc)
  spaces c hc hb := by simp [hw c hc] at hb
  apart := by
    rw [List.isChain_iff_getElem]
    exact fun i hi => .inl (hw _ (List.getElem_mem _))

/-- A space joins a word and a single-spaced text. -/
theorem SingleSpaced.word_space (h : SingleSpaced rest) (hrest : rest ≠ []) (hne : word ≠ [])
    (hw : ∀ c ∈ word, isBlank c = false) : SingleSpaced (word ++ ' ' :: rest) := by
  have hword := singleSpaced_word hw
  refine ⟨fun c hc => ?_, fun c hc => ?_, fun c hc hb => ?_, ?_⟩
  · rw [List.head?_append_of_ne_nil _ hne] at hc
    exact hword.first c hc
  · rw [List.getLast?_append_of_ne_nil _ (List.cons_ne_nil _ _), List.getLast?_cons_of_ne_nil hrest] at hc
    exact h.last c hc
  · rcases List.mem_append.1 hc with hc | hc
    · exact hword.spaces c hc hb
    · exact (List.mem_cons.1 hc).elim id fun hc => h.spaces c hc hb
  · refine List.isChain_append.2 ⟨hword.apart, List.isChain_cons.2 ⟨fun c hc => ?_, h.apart⟩,
      fun c hc _ _ => .inl (hword.last c hc)⟩
    exact .inr (h.first c hc)

/-- What stands behind a space in a single-spaced text is single-spaced, and there is something. -/
theorem SingleSpaced.of_word_space (h : SingleSpaced (word ++ ' ' :: rest)) :
    SingleSpaced rest ∧ rest ≠ [] := by
  have hne : rest ≠ [] := by
    rintro rfl
    exact absurd (h.last ' ' (by simp)) (by decide)
  obtain ⟨-, apart, -⟩ := List.isChain_append.1 h.apart
  obtain ⟨first, apart⟩ := List.isChain_cons.1 apart
  refine ⟨⟨fun c hc => ?_, fun c hc => h.last c ?_, fun c hc => h.spaces c ?_, apart⟩, hne⟩
  · exact (first c hc).resolve_left (by decide)
  · rwa [List.getLast?_append_of_ne_nil _ (List.cons_ne_nil _ _), List.getLast?_cons_of_ne_nil hne]
  · exact List.mem_append_right _ (List.mem_cons_of_mem _ hc)

end

/-- Words put together with single spaces are single-spaced, and the words are found again. -/
theorem singleSpaced_intercalate : ∀ {words : List (List Char)},
    (∀ w ∈ words, w ≠ [] ∧ ∀ c ∈ w, isBlank c = false) →
      SingleSpaced ([' '].intercalate words) ∧ wordsOf ([' '].intercalate words) = words
  | [], _ => ⟨@singleSpaced_word [] (by simp), rfl⟩
  | [word], h => by
    obtain ⟨hne, hw⟩ := h word List.mem_cons_self
    rw [List.intercalate_singleton]
    exact ⟨singleSpaced_word hw, wordsOf_word hne hw⟩
  | word :: next :: words, h => by
    obtain ⟨⟨hne, hw⟩, hwords⟩ := List.forall_mem_cons.1 h
    obtain ⟨spaced, found⟩ := singleSpaced_intercalate hwords
    have joined : [' '].intercalate (word :: next :: words) =
        word ++ ' ' :: [' '].intercalate (next :: words) := by
      rw [List.intercalate_cons_cons, List.append_assoc]
      rfl
    have hnext : [' '].intercalate (next :: words) ≠ [] := by
      intro hnil
      rw [hnil] at found
      cases found
    rw [joined]
    refine ⟨spaced.word_space hnext hne hw, ?_⟩
    rw [wordsOf_append_blank (by decide), wordsOf_word hne hw, found]
    rfl

theorem singleSpaced_singleSpaced (cs : List Char) : SingleSpaced (singleSpaced cs) :=
  (singleSpaced_intercalate fun _ => mem_wordsOf).1

theorem wordsOf_singleSpaced (cs : List Char) : wordsOf (singleSpaced cs) = wordsOf cs :=
  (singleSpaced_intercalate fun _ => mem_wordsOf).2

/-- There are no blanks in front of a single-spaced text. -/
theorem SingleSpaced.eq_nil_of_blank {before rest : List Char} (h : SingleSpaced (before ++ rest))
    (hb : ∀ c ∈ before, isBlank c = true) : before = [] := by
  cases before with
  | nil => rfl
  | cons c before =>
    have hc := h.first c rfl
    rw [hb c List.mem_cons_self] at hc
    cases hc

/-- A single-spaced text is its words, put together with single spaces. -/
theorem SingleSpaced.intercalate_eq {t : List Char} {words : List (List Char)} (h : SingleSpaced t)
    (hwords : Worded t words) : [' '].intercalate words = t := by
  induction words generalizing t with
  | nil =>
    cases hwords with
    | none hb =>
      rw [← List.append_nil t] at h
      exact (h.eq_nil_of_blank hb).symm
  | cons word words ih =>
    cases hwords with
    | @next before _ rest _ hb hne hw hr hrest =>
      rw [List.append_assoc] at h ⊢
      obtain rfl := h.eq_nil_of_blank hb
      rw [List.nil_append] at h ⊢
      cases rest with
      | nil =>
        obtain rfl : [] = words := hrest.wordsOf_eq
        rw [List.intercalate_singleton, List.append_nil]
      | cons c rest =>
        -- Behind the word stands a space, and the same holds of what follows it.
        obtain rfl : c = ' ' := h.spaces c (by simp) (hr c rfl)
        obtain ⟨spaced, hne⟩ := h.of_word_space
        have hrest : wordsOf rest = words :=
          (wordsOf_append_blank (by decide) [] rest).symm.trans hrest.wordsOf_eq
        have joined := ih spaced (wordsOf_eq_iff.1 hrest)
        cases words with
        | nil => exact absurd joined.symm hne
        | cons next words =>
          rw [List.intercalate_cons_cons, joined, List.append_assoc]
          rfl

/-- **Single-spacing** yields the one single-spaced text with the same words. -/
theorem singleSpaced_eq_iff {cs t : List Char} :
    singleSpaced cs = t ↔ SingleSpaced t ∧ wordsOf t = wordsOf cs := by
  constructor
  · rintro rfl
    exact ⟨singleSpaced_singleSpaced cs, wordsOf_singleSpaced cs⟩
  · rintro ⟨h, hwords⟩
    rw [singleSpaced, ← hwords]
    exact h.intercalate_eq (wordsOf_eq_iff.1 rfl)

/-! ## Normal texts -/

variable {s t : String}

theorem words_eq_iff {ws : List String} :
    words s = ws ↔ Worded s.toList (ws.map String.toList) := by
  have spelled : (words s).map String.toList = wordsOf s.toList := by
    simp [words]
  rw [← wordsOf_eq_iff, ← spelled]
  exact (List.map_injective_iff.2 fun _ _ => String.toList_injective).eq_iff.symm

theorem singleSpaced_normalize (s : String) : SingleSpaced (normalize s).toList := by
  rw [normalize, String.toList_ofList]
  exact singleSpaced_singleSpaced _

theorem words_normalize (s : String) : words (normalize s) = words s := by
  rw [words, normalize, String.toList_ofList, wordsOf_singleSpaced]
  rfl

/-- Wide and unbreakable spaces are blanks like any other. -/
example : normalize "\u2003Read\u00a0\n more\u3000" = "Read more" := by decide

/-- A text is its own normal form exactly if it is single-spaced. -/
theorem normalize_eq_self_iff : normalize s = s ↔ SingleSpaced s.toList := by
  rw [← String.toList_inj, normalize, String.toList_ofList, singleSpaced_eq_iff]
  exact and_iff_left rfl

theorem normalize_normalize (s : String) : normalize (normalize s) = normalize s :=
  normalize_eq_self_iff.2 (singleSpaced_normalize s)

theorem normalize_eq_iff : normalize s = normalize t ↔ words s = words t := by
  constructor
  · intro h
    rw [← words_normalize s, h, words_normalize]
  · intro h
    have same : wordsOf s.toList = wordsOf t.toList :=
      (List.map_injective_iff.2 fun _ _ => String.ofList_injective) h
    rw [normalize, normalize, singleSpaced, singleSpaced, same]

end PageAudit.Text
