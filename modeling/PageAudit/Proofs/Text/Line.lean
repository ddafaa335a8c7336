import PageAudit.Proofs.Text.Pieces
import PageAudit.Proofs.Numeral.Decimal
import PageAudit.Numeral.Fixed
import PageAudit.Numeral.Shortest

/-!
# Lines

A line is a text without a line feed (`Text.IsLine`). A text made of lines falls apart into the same
lines again (`parts_ofLines`), and single-spaced text (`isLine_normalize`) and written numbers
(`isLine_toString`, `isLine_fixed`, `isLine_shortestText`) are lines.
-/

namespace PageAudit

namespace Text

def IsLine (s : String) : Prop := '\n' ∉ s.toList

instance (s : String) : Decidable (IsLine s) := inferInstanceAs (Decidable ('\n' ∉ s.toList))

@[simp] theorem isLine_append {a b : String} : IsLine (a ++ b) ↔ IsLine a ∧ IsLine b := by
  simp [IsLine]

theorem isLine_ofList {cs : List Char} : IsLine (.ofList cs) ↔ '\n' ∉ cs := by
  rw [IsLine, String.toList_ofList]

/-! ## Texts made of lines -/

theorem toList_ofLines_cons (line : String) (lines : List String) :
    (ofLines (line :: lines)).toList = line.toList ++ '\n' :: (ofLines lines).toList := by
  simp [ofLines, String.toList_join]

/-- **Lines can be told apart** by the line feeds that end them. -/
theorem parts_ofLines {lines : List String} (h : ∀ l ∈ lines, IsLine l) :
    parts '\n' (ofLines lines) = lines ++ [""] := by
  unfold parts
  induction lines with
  | nil => rfl
  | cons line lines ih =>
    obtain ⟨hline, hlines⟩ := List.forall_mem_cons.1 h
    have hpart : ∀ c ∈ line.toList, (c == '\n') = false := by
      intro c hc
      rw [beq_eq_false_iff_ne]
      rintro rfl
      exact hline hc
    rw [toList_ofLines_cons, partsOf_append_cons hpart rfl, List.map_cons, ih hlines,
      String.ofList_toList, List.cons_append]

theorem isLine_of_mem_parts {s part : String} (h : part ∈ parts '\n' s) : IsLine part := by
  obtain ⟨cs, hcs, rfl⟩ := List.mem_map.1 h
  rw [isLine_ofList]
  intro hm
  cases not_sep_of_mem_partsOf cs hcs '\n' hm

/-- Only lines can. -/
theorem parts_ofLines_iff {lines : List String} :
    parts '\n' (ofLines lines) = lines ++ [""] ↔ ∀ l ∈ lines, IsLine l := by
  refine ⟨fun h l hl => ?_, parts_ofLines⟩
  refine isLine_of_mem_parts (s := ofLines lines) ?_
  rw [h]
  exact List.mem_append_left _ hl

/-! ## Single-spaced text -/

theorem mem_intercalate {c : Char} {sep : List Char} : ∀ {xs : List (List Char)},
    c ∈ sep.intercalate xs → c ∈ sep ∨ ∃ x ∈ xs, c ∈ x
  | [], h => by simp at h
  | [x], h => .inr ⟨x, by simp, by simpa using h⟩
  | x :: y :: xs, h => by
    rw [List.intercalate_cons_cons, List.append_assoc, List.mem_append, List.mem_append] at h
    rcases h with h | h | h
    · exact .inr ⟨x, by simp, h⟩
    · exact .inl h
    · rcases mem_intercalate h with h | ⟨z, hz, h⟩
      · exact .inl h
      · exact .inr ⟨z, List.mem_cons_of_mem x hz, h⟩

theorem isLine_normalize (s : String) : IsLine (normalize s) := by
  rw [normalize, isLine_ofList]
  intro h
  rcases mem_intercalate h with h | ⟨word, hword, h⟩
  · simp at h
  · have := not_sep_of_mem_partsOf word (List.mem_filter.1 hword).1 '\n' h
    cases this

/-! ## Numbers -/

theorem isLine_of_isDigit {s : String} (h : ∀ c ∈ s.toList, c.isDigit = true) : IsLine s := by
  intro hm
  cases h '\n' hm

theorem isLine_toString (n : Nat) : IsLine (toString n) := by
  refine isLine_of_isDigit fun c hc => ?_
  rw [Nat.toString_eq_repr, Nat.toList_repr] at hc
  exact Nat.isDigit_of_mem_toDigits (by decide) (by decide) hc

theorem isLine_padded (width n : Nat) : IsLine (Numeral.padded width n) :=
  isLine_of_isDigit Numeral.isDigit_of_mem_padded

theorem isLine_pushn_zero (n : Nat) : IsLine ("".pushn '0' n) := by
  rw [IsLine, Numeral.toList_pushn]
  intro h
  cases List.eq_of_mem_replicate h

theorem isLine_sign (negative : Bool) : IsLine (if negative then "-" else "") := by
  cases negative <;> decide

theorem isLine_scaled (places n : Nat) : IsLine (Numeral.scaled places n) := by
  unfold Numeral.scaled
  dsimp only
  split
  · exact isLine_toString _
  · rw [isLine_append, isLine_append]
    exact ⟨⟨isLine_toString _, by decide⟩, isLine_padded _ _⟩

/-- A double with a fixed number of decimals. -/
theorem isLine_fixed (places : Nat) (x : Float) : IsLine (Numeral.fixed places x) := by
  unfold Numeral.fixed
  obtain ⟨negative, size⟩ := Numeral.magnitude x
  cases size with
  | notANumber => exact (by decide : IsLine "NaN")
  | infinite =>
    cases negative
    · exact (by decide : IsLine "inf")
    · exact (by decide : IsLine "-inf")
  | finite b => exact isLine_append.2 ⟨isLine_sign negative, isLine_scaled _ _⟩

theorem isLine_positional (d : Nat) (exponent : Int) : IsLine (Numeral.positional d exponent) := by
  unfold Numeral.positional
  split
  · exact isLine_toString _
  · dsimp only
    rw [isLine_append, isLine_append, isLine_append]
    exact ⟨⟨⟨isLine_toString _, by decide⟩, isLine_pushn_zero _⟩, isLine_toString _⟩

/-- The shortest decimal of a double. -/
theorem isLine_shortestText (x : Float) : IsLine (Numeral.shortestText x) := by
  unfold Numeral.shortestText
  obtain ⟨negative, size⟩ := Numeral.magnitude x
  cases size with
  | notANumber => exact (by decide : IsLine "NaN")
  | infinite =>
    cases negative
    · exact (by decide : IsLine "inf")
    · exact (by decide : IsLine "-inf")
  | finite b =>
    dsimp only
    split
    · exact isLine_append.2 ⟨isLine_sign negative, by decide⟩
    · exact isLine_append.2 ⟨isLine_sign negative, isLine_positional _ _⟩

end Text

end PageAudit
