import PageAudit.Proofs.Html.Root
import PageAudit.Html.Modes

/-!
# The root in every mode

Whatever the mode and the token, a rooted builder stays rooted (`Rooted.inMode`). There is one lemma for
each mode. What the operations of the builder keep is tagged for `grind`, which goes through the tags that
a mode tells apart and puts the lemmas together.
-/

namespace PageAudit.Html.Builder

variable {b : Builder} {r : Nat}

@[grind =] theorem fst_done (b : Builder) : b.done.1 = b := rfl

@[grind =] theorem fst_goTo (m : Mode) (b : Builder) : (goTo m b).1 = { b with mode := m } := rfl

@[grind =] theorem fst_again (m : Mode) (b : Builder) : (again m b).1 = { b with mode := m } := rfl

theorem Rooted.fst_ite {x y : Result} (hx : x.1.Rooted r) (hy : y.1.Rooted r) {c : Prop}
    [Decidable c] : (if c then x else y).1.Rooted r := by
  split
  · exact hx
  · exact hy

/-! ## Before the body -/

@[grind ←] theorem Rooted.mergeRoot (h : b.Rooted r) (t : Tag) : (b.mergeRoot t).Rooted r :=
  h.of_draft (h.draft.addMissing _ _)

@[grind ←] theorem Rooted.openHead (h : b.Rooted r) (t : Tag) : (b.openHead t).Rooted r where
  draft := (h.openTag t).draft
  outermost := (h.openTag t).outermost
  page_notMem := (h.openTag t).page_notMem
  head := by
    rintro id hid
    obtain rfl : (b.create .html t).2 = id := Option.some.inj hid
    exact h.movable_create .html t

@[grind ←] theorem Rooted.headTag (h : b.Rooted r) (t : Tag) : (b.headTag t).Rooted r := by
  unfold Builder.headTag
  split <;> grind

theorem Rooted.initial (h : b.Rooted r) (t : Token) : (b.initial t).1.Rooted r := by
  cases t <;> grind [Builder.initial]

theorem Rooted.openRoot (h : b.Rooted r) (t : Tag) : (b.openRoot t).Rooted r where
  draft := (h.create .html t).draft.append Draft.page (h.movable_create .html t).1
  outermost := List.pairwise_singleton _ _
  page_notMem := by simpa [Builder.openRoot] using Ne.symm (h.movable_create .html t).2
  head := h.head

theorem Rooted.beforeHtml (h : b.Rooted r) (t : Token) : (b.beforeHtml t).1.Rooted r := by
  have hroot := fun t => h.openRoot t
  cases t <;> grind [Builder.beforeHtml]

theorem Rooted.beforeHead (h : b.Rooted r) (t : Token) : (b.beforeHead t).1.Rooted r := by
  cases t <;> grind [Builder.beforeHead]

theorem Rooted.inHead (h : b.Rooted r) (t : Token) : (b.inHead t).1.Rooted r := by
  cases t <;> grind [Builder.inHead]

theorem Rooted.afterHead (h : b.Rooted r) (t : Token) : (b.afterHead t).1.Rooted r := by
  -- the head is opened again for a tag that belongs there
  have opened : ∀ head t, b.head? = some head →
      ({ b with stack := head :: b.stack }.headTag t).Rooted r :=
    fun head t hhead => (h.push (h.head head hhead)).headTag t
  cases t <;> grind [Builder.afterHead]

/-! ## The body -/

@[grind ←] theorem Rooted.closeItem (h : b.Rooted r) (tags : List String) :
    (b.closeItem tags).Rooted r := by
  grind [Builder.closeItem]

theorem Rooted.bodyStart (h : b.Rooted r) (t : Tag) : (b.bodyStart t).Rooted r := by
  have merged := fun id => h.of_draft (h.draft.addMissing id t.attributes)
  unfold Builder.bodyStart
  dsimp only
  -- one branch at a time: there are too many for a single search
  repeat' apply Rooted.ite
  all_goals grind

theorem Rooted.bodyEnd (h : b.Rooted r) (name : String) : (b.bodyEnd name).Rooted r := by
  unfold Builder.bodyEnd
  repeat' apply Rooted.ite
  all_goals grind

@[grind ←] theorem Rooted.inBody (h : b.Rooted r) (t : Token) : (b.inBody t).1.Rooted r := by
  have hs := fun t => h.bodyStart t
  have he := fun n => h.bodyEnd n
  cases t <;> grind [Builder.inBody]

theorem Rooted.inText (h : b.Rooted r) (t : Token) : (b.inText t).1.Rooted r := by
  cases t <;> grind [Builder.inText]

/-! ## Tables -/

@[grind ←] theorem Rooted.fosterInBody (h : b.Rooted r) (t : Token) :
    (b.fosterInBody t).1.Rooted r := by
  grind [Builder.fosterInBody]

@[grind ←] theorem Rooted.inTable (h : b.Rooted r) (t : Token) : (b.inTable t).1.Rooted r := by
  unfold Builder.inTable
  dsimp only
  split
  all_goals
    repeat' apply Rooted.fst_ite
    all_goals grind

theorem Rooted.inTableText (h : b.Rooted r) (t : Token) : (b.inTableText t).1.Rooted r := by
  have blanks := fun (b : Builder) (h : b.Rooted r) (cs : List Char) =>
    List.foldlRecOn (motive := (Rooted · r)) cs Builder.insertChar h fun _ h c _ => h.insertChar c
  have others := fun (b : Builder) (h : b.Rooted r) (cs : List Char) =>
    List.foldlRecOn (motive := (Rooted · r)) cs (fun b c => (b.fosterInBody (.char c)).1) h
      fun _ h c _ => h.fosterInBody (.char c)
  have emptied : { b with tableText := [] }.Rooted r := rooted_mk.mpr h
  unfold Builder.inTableText
  split
  · rename_i c
    have kept : { b with tableText := b.tableText ++ [c] }.Rooted r := rooted_mk.mpr h
    exact Rooted.fst_ite h kept
  · exact rooted_mk.mpr (Rooted.ite (blanks _ emptied _) (others _ emptied _))

theorem Rooted.inCaption (h : b.Rooted r) (t : Token) : (b.inCaption t).1.Rooted r := by
  cases t <;> grind [Builder.inCaption]

theorem Rooted.inColumnGroup (h : b.Rooted r) (t : Token) : (b.inColumnGroup t).1.Rooted r := by
  cases t <;> grind [Builder.inColumnGroup]

theorem Rooted.inTableBody (h : b.Rooted r) (t : Token) : (b.inTableBody t).1.Rooted r := by
  cases t <;> grind [Builder.inTableBody]

theorem Rooted.inRow (h : b.Rooted r) (t : Token) : (b.inRow t).1.Rooted r := by
  cases t <;> grind [Builder.inRow]

theorem Rooted.inCell (h : b.Rooted r) (t : Token) : (b.inCell t).1.Rooted r := by
  cases t <;> grind [Builder.inCell]

/-! ## Selections -/

@[grind ←] theorem Rooted.closeSelect (h : b.Rooted r) : b.closeSelect.Rooted r :=
  (h.closeUpTo _).resetMode

@[grind ←] theorem Rooted.inSelect (h : b.Rooted r) (t : Token) : (b.inSelect t).1.Rooted r := by
  cases t <;> grind [Builder.inSelect]

theorem Rooted.inSelectInTable (h : b.Rooted r) (t : Token) : (b.inSelectInTable t).1.Rooted r := by
  cases t <;> grind [Builder.inSelectInTable]

/-! ## After the body -/

theorem Rooted.afterBody (h : b.Rooted r) (t : Token) : (b.afterBody t).1.Rooted r := by
  cases t <;> grind [Builder.afterBody]

theorem Rooted.afterAfterBody (h : b.Rooted r) (t : Token) : (b.afterAfterBody t).1.Rooted r := by
  cases t <;> grind [Builder.afterAfterBody]

/-! ## All modes -/

theorem Rooted.inMode (h : b.Rooted r) (t : Token) : (b.inMode t).1.Rooted r := by
  unfold Builder.inMode
  cases b.mode with
  | initial => exact h.initial t
  | beforeHtml => exact h.beforeHtml t
  | beforeHead => exact h.beforeHead t
  | inHead => exact h.inHead t
  | afterHead => exact h.afterHead t
  | inBody => exact h.inBody t
  | text => exact h.inText t
  | inTable => exact h.inTable t
  | inTableText => exact h.inTableText t
  | inCaption => exact h.inCaption t
  | inColumnGroup => exact h.inColumnGroup t
  | inTableBody => exact h.inTableBody t
  | inRow => exact h.inRow t
  | inCell => exact h.inCell t
  | inSelect => exact h.inSelect t
  | inSelectInTable => exact h.inSelectInTable t
  | afterBody => exact h.afterBody t
  | afterAfterBody => exact h.afterAfterBody t

end PageAudit.Html.Builder
