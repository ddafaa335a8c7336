import PageAudit.Html.Reader
import PageAudit.Proofs.Html.Modes

/-!
# Every page has a root

The rules for other languages and the loops that read a text keep a builder rooted, as the modes do.
Before the root is made nothing is on the page (`Blank`), and the end of the text makes one at the latest
(`Blank.take_endOfText`). So whatever its text, **a page that is read has a root** (`yieldsRoot_parse`).
-/

namespace PageAudit

namespace Html

namespace Builder

variable {b : Builder} {r : Nat}

/-! ## Other languages -/

theorem Rooted.leaveForeign (h : b.Rooted r) : b.leaveForeign.Rooted r :=
  h.of_sublist (List.dropWhile_sublist _)

theorem Rooted.foreignEnd (h : b.Rooted r) (name : String) {ids : List Nat}
    (hids : ids.Sublist b.stack) : (b.foreignEnd name ids).1.Rooted r := by
  induction ids with
  | nil => exact h
  | cons id rest ih =>
    have hrest : rest.Sublist b.stack := (List.sublist_cons_self id rest).trans hids
    unfold Builder.foreignEnd
    dsimp only
    have closed : { b with stack := rest }.Rooted r := h.of_sublist hrest
    refine Rooted.fst_ite h (Rooted.fst_ite ?found ?passed)
    case found => exact Rooted.fst_ite (h.inMode _) closed
    case passed => exact Rooted.fst_ite (h.inMode _) (ih hrest)

theorem Rooted.inForeign (h : b.Rooted r) (t : Token) : (b.inForeign t).1.Rooted r := by
  cases t with
  | startTag t =>
    have opened := fun space t => h.openIn space t
    exact Rooted.fst_ite (h.leaveForeign.inMode _) (Rooted.ite (opened _ _).pop (opened _ _))
  | endTag name =>
    exact Rooted.fst_ite (h.leaveForeign.inMode _) (h.foreignEnd name (List.Sublist.refl _))
  | char c => exact h.insertChar _
  | comment => exact h.insertComment
  | doctype d => exact h
  | endOfText => exact h

/-! ## Before the root -/

/-- Nothing is on the page, and the next token that counts makes the root. -/
structure Blank (b : Builder) : Prop where
  draft : b.draft = {}
  stack : b.stack = []
  head : b.head? = none
  mode : b.mode = .initial ∨ b.mode = .beforeHtml

/-- A state in which a text is read. The first node on a page gets the number one. -/
def Valid (b : Builder) : Prop := b.Blank ∨ b.Rooted 1

theorem Blank.not_isForeign (h : b.Blank) (t : Token) : b.isForeign t = false := by
  simp [isForeign, h.stack]

theorem Blank.openRoot (h : b.Blank) (t : Tag) : (b.openRoot t).Rooted 1 := by
  have hdraft : (b.openRoot t).draft =
      (({} : Draft).add (.element .html t.name t.attributes)).1.append Draft.page 1 := by
    simp [Builder.openRoot, create, h.draft, Draft.add]
  have hstack : (b.openRoot t).stack = [1] := by
    simp [Builder.openRoot, create, h.draft, Draft.add]
  have hhead : (b.openRoot t).head? = none := h.head
  constructor
  · rw [hdraft]
    exact Draft.hasRoot_append_page .html t.name t.attributes
  · rw [hstack]
    exact List.pairwise_singleton _ _
  · rw [hstack]
    decide
  · rw [hhead]
    simp

theorem Blank.goTo (h : b.Blank) {m : Mode} (hm : m = .initial ∨ m = .beforeHtml) (old : Bool) :
    { b with mode := m, oldPage := old }.Blank :=
  ⟨h.draft, h.stack, h.head, hm⟩

theorem Blank.inMode (h : b.Blank) (t : Token) : (b.inMode t).1.Valid := by
  have hnext := fun old => h.goTo (.inr rfl : Mode.beforeHtml = .initial ∨ _) old
  have hroot := fun t => h.openRoot t
  unfold Builder.inMode Valid
  rcases h.mode with hm | hm <;> rw [hm] <;> cases t <;>
    grind [Builder.initial, Builder.beforeHtml]

/-! ## The loops -/

theorem take_succ (b : Builder) (t : Token) (times : Nat) : take t (times + 1) b =
    let x := if b.isForeign t then b.inForeign t else b.inMode t
    if x.2 then take t times x.1 else x.1 := rfl

theorem Rooted.take (h : b.Rooted r) (t : Token) (times : Nat) : (take t times b).Rooted r := by
  induction times generalizing b with
  | zero => exact h
  | succ times ih =>
    have hstep := Rooted.fst_ite (h.inForeign t) (h.inMode t) (c := b.isForeign t = true)
    rw [take_succ]
    exact Rooted.ite (ih hstep) hstep

theorem Valid.take (h : b.Valid) (t : Token) (times : Nat) : (take t times b).Valid := by
  induction times generalizing b with
  | zero => exact h
  | succ times ih =>
    rcases h with h | h
    · have hstep := h.inMode t
      rw [take_succ, h.not_isForeign, if_neg Bool.false_ne_true]
      dsimp only
      split
      · exact ih hstep
      · exact hstep
    · exact .inr (h.take t (times + 1))

/-- The end of the text makes a root. -/
theorem Blank.take_endOfText (h : b.Blank) (times : Nat) :
    (Builder.take .endOfText (times + 2) b).Rooted 1 := by
  have opened : ∀ (b : Builder) (times : Nat), b.Blank → b.mode = .beforeHtml →
      (Builder.take .endOfText (times + 1) b).Rooted 1 := by
    intro b times h hm
    rw [take_succ, h.not_isForeign, if_neg Bool.false_ne_true, Builder.inMode, hm]
    exact Rooted.take (rooted_mk.mpr (h.openRoot _)) .endOfText times
  rcases h.mode with hm | hm
  · rw [take_succ, h.not_isForeign, if_neg Bool.false_ne_true, Builder.inMode, hm]
    exact opened _ times (h.goTo (.inr rfl) true) rfl
  · exact opened b (times + 1) h hm

theorem Valid.withSkip (h : b.Valid) (skip : Bool) : { b with skipNewline := skip }.Valid :=
  h.imp (fun h => ⟨h.draft, h.stack, h.head, h.mode⟩) rooted_mk.mpr

theorem Valid.accept (h : b.Valid) (t : Token) : (b.accept t).Valid := by
  unfold Builder.accept
  dsimp only
  split
  · exact h.withSkip false
  · exact (h.withSkip false).take ..

theorem Valid.readContent (h : b.Valid) (cs : List Char) : (b.readContent cs).1.Valid := by
  unfold Builder.readContent
  split
  · exact h
  · exact List.foldlRecOn (motive := Valid) _ _
      (h.imp (fun h => ⟨h.draft, h.stack, h.head, h.mode⟩) rooted_mk.mpr) fun _ h c _ => h.accept _

theorem Valid.read (h : b.Valid) (size : Nat) (cs : List Char) : (b.read size cs).Valid := by
  induction size generalizing b cs with
  | zero => exact h
  | succ size ih =>
    unfold Builder.read
    split
    · exact h
    · exact ih ((List.foldlRecOn (motive := Valid) _ _ h fun _ h t _ => h.accept t).readContent _) _

theorem Valid.rooted_end (h : b.Valid) : (b.accept .endOfText).Rooted 1 := by
  unfold Builder.accept
  rcases h.withSkip false with h | h
  · exact h.take_endOfText _
  · exact h.take ..

end Builder

theorem Draft.HasRoot.finish {d : Draft} {r : Nat} (h : d.HasRoot r) :
    ∃ tag attributes children, d.finish = .element tag attributes children := by
  have hr : r ∈ d.children page := (h.mem_children page).mpr rfl
  unfold Draft.finish
  cases hfind : (d.children page).find? fun id => (d.name? id).isSome with
  | none => exact absurd h.named (by simpa using Array.find?_eq_none.mp hfind r hr)
  | some id =>
    have hid := Array.find?_some (p := fun id => (d.name? id).isSome) hfind
    obtain ⟨k, hk⟩ := Nat.exists_eq_succ_of_ne_zero (Nat.ne_zero_of_lt h.lt_size)
    rw [name?_eq] at hid
    cases hnode : d.nodes[id]? with
    | none => simp [hnode] at hid
    | some node =>
      obtain ⟨content, parent?, cs⟩ := node
      cases content with
      | element space tag attributes =>
        exact ⟨tag, attributes, _, by simp only [hk, finishTo, hnode]; rfl⟩
      | _ => simp [hnode, DraftContent.name?] at hid

/-- **Every page has a root**, whatever its text. -/
theorem yieldsRoot_parse : Parser.YieldsRoot parse := fun _ =>
  (Builder.Valid.rooted_end (Builder.Valid.read (.inl ⟨rfl, rfl, rfl, .inl rfl⟩) _ _)).draft.finish

end Html

end PageAudit
