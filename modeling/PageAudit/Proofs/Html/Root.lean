import PageAudit.Html.Builder

/-!
# The root of a draft

Reading moves nodes about, but never the root: it stays the one element on the page. `Draft.HasRoot`
says so of a draft, and every operation that moves other nodes keeps it. `Builder.Rooted` adds what the
builder needs to keep away from the root: it is open only as the outermost element, and the page itself
is never open.
-/

namespace PageAudit.Html

/-! ## Drafts -/

def DraftContent.name? : DraftContent → Option (Space × String)
  | .element space tag _ => some (space, tag)
  | _ => none

namespace Draft

theorem name?_eq (d : Draft) (id : Nat) : d.name? id = d.nodes[id]?.bind (·.content.name?) := by
  unfold name?
  split
  · rename_i h
    rw [h]
    rfl
  · rename_i hne
    cases h : d.nodes[id]? with
    | none => rfl
    | some n =>
      obtain ⟨content, p, cs⟩ := n
      cases content with
      | element space tag attributes => exact absurd h (hne _ _ _ _ _)
      | page => rfl
      | text content => rfl
      | comment => rfl

theorem mem_children_iff {d : Draft} {p x : Nat} :
    x ∈ d.children p ↔ ∃ n, d.nodes[p]? = some n ∧ x ∈ n.children := by
  unfold children
  cases d.nodes[p]? <;> simp

/-- The element `r` is a child of the page, and of nothing else. -/
structure HasRoot (d : Draft) (r : Nat) : Prop where
  named : (d.name? r).isSome
  mem_children : ∀ p, r ∈ d.children p ↔ p = page

variable {d : Draft} {r : Nat}

theorem HasRoot.lt_size (h : d.HasRoot r) : r < d.nodes.size := by
  refine Nat.lt_of_not_le fun hge => ?_
  have hnamed := h.named
  rw [name?_eq, Array.getElem?_eq_none hge] at hnamed
  cases hnamed

theorem HasRoot.page_lt_size (h : d.HasRoot r) : page < d.nodes.size := by
  obtain ⟨n, hn, -⟩ := mem_children_iff.mp ((h.mem_children page).mpr rfl)
  exact (Array.getElem?_eq_some_iff.mp hn).1

theorem HasRoot.add (h : d.HasRoot r) (content : DraftContent) : (d.add content).1.HasRoot r where
  named := by
    rw [name?_eq, Draft.add, Array.getElem?_push, if_neg (by have := h.lt_size; omega), ← name?_eq]
    exact h.named
  mem_children p := by
    rw [← h.mem_children p, mem_children_iff, mem_children_iff, Draft.add]
    simp only [Array.getElem?_push]
    split
    · rename_i hp
      subst hp
      simp
    · rfl

/-- A change of one node that keeps what is called an element and where `r` is listed. -/
theorem HasRoot.change (h : d.HasRoot r) (id : Nat) {f : DraftNode → DraftNode}
    (hname : ∀ n, (f n).content.name? = n.content.name?)
    (hchildren : ∀ n, r ∈ (f n).children ↔ r ∈ n.children) : (d.change id f).HasRoot r where
  named := by
    have := h.named
    rw [name?_eq] at this ⊢
    rw [Draft.change, Array.getElem?_modify]
    split
    · cases hr : d.nodes[r]? <;> simp_all
    · exact this
  mem_children p := by
    rw [← h.mem_children p, mem_children_iff, mem_children_iff, Draft.change]
    simp only [Array.getElem?_modify]
    split
    · cases d.nodes[p]? <;> simp [hchildren]
    · rfl

theorem HasRoot.setParent (h : d.HasRoot r) (id : Nat) (parent? : Option Nat) :
    (d.change id fun n => { n with parent? := parent? }).HasRoot r :=
  h.change id (fun _ => rfl) fun _ => Iff.rfl

theorem HasRoot.setChildren (h : d.HasRoot r) (id : Nat) {f : DraftNode → Array Nat}
    (hf : ∀ n, r ∈ f n ↔ r ∈ n.children) :
    (d.change id fun n => { n with children := f n }).HasRoot r :=
  h.change id (fun _ => rfl) hf

theorem HasRoot.detach (h : d.HasRoot r) {id : Nat} (hid : id ≠ r) : (d.detach id).HasRoot r := by
  unfold Draft.detach
  split
  · exact h
  · refine HasRoot.setParent (HasRoot.setChildren h _ fun n => ?_) id none
    simp [Ne.symm hid]

theorem HasRoot.append (h : d.HasRoot r) (parent : Nat) {id : Nat} (hid : id ≠ r) :
    (d.append parent id).HasRoot r := by
  refine HasRoot.setParent (HasRoot.setChildren (h.detach hid) parent fun n => ?_) id (some parent)
  simp [Ne.symm hid]

theorem HasRoot.insertBefore (h : d.HasRoot r) (sibling : Nat) {id : Nat} (hid : id ≠ r) :
    (d.insertBefore sibling id).HasRoot r := by
  unfold Draft.insertBefore
  dsimp only
  split
  · exact h.detach hid
  · refine HasRoot.setParent (HasRoot.setChildren (h.detach hid) _ fun n => ?_) id _
    have hx : ∀ x, r ∈ (if x = sibling then #[id, x] else #[x]) ↔ r = x := by
      intro x
      split <;> simp [Ne.symm hid]
    simp [Array.mem_flatMap, hx]

theorem HasRoot.lengthen (h : d.HasRoot r) (id : Nat) (c : Char) : (d.lengthen id c).HasRoot r := by
  refine h.change id (fun n => ?_) fun n => ?_
  all_goals cases hn : n.content <;> simp [hn, DraftContent.name?]

theorem HasRoot.addMissing (h : d.HasRoot r) (id : Nat) (attributes : List Attribute) :
    (d.addMissing id attributes).HasRoot r := by
  refine h.change id (fun n => ?_) fun n => ?_
  all_goals cases hn : n.content <;> simp [hn, DraftContent.name?]

theorem HasRoot.new_ne (h : d.HasRoot r) (content : DraftContent) : (d.add content).2 ≠ r :=
  Nat.ne_of_gt h.lt_size

theorem HasRoot.new_ne_page (h : d.HasRoot r) (content : DraftContent) : (d.add content).2 ≠ page :=
  Nat.ne_of_gt h.page_lt_size

theorem HasRoot.appendChar (h : d.HasRoot r) (parent : Nat) (c : Char) :
    (d.appendChar parent c).HasRoot r := by
  unfold Draft.appendChar
  split
  · exact h.lengthen _ c
  · exact (h.add _).append parent (h.new_ne (.text (String.singleton c)))

theorem HasRoot.charBefore (h : d.HasRoot r) (sibling : Nat) (c : Char) :
    (d.charBefore sibling c).HasRoot r := by
  unfold Draft.charBefore
  dsimp only
  split
  · exact h.lengthen _ c
  · exact (h.add _).insertBefore sibling (h.new_ne (.text (String.singleton c)))

theorem HasRoot.moveChildren (h : d.HasRoot r) {source : Nat} (hs : source ≠ page) (target : Nat) :
    (d.moveChildren source target).HasRoot r := by
  have hr : ∀ id ∈ d.children source, id ≠ r := by
    rintro id hid rfl
    exact hs ((h.mem_children source).mp hid)
  have moved : ∀ (ids : List Nat) (d : Draft), d.HasRoot r → (∀ id ∈ ids, id ≠ r) →
      (ids.foldl (fun d id => d.append target id) d).HasRoot r := by
    intro ids
    induction ids with
    | nil => exact fun d hd _ => hd
    | cons id ids ih =>
      intro d hd hids
      exact ih _ (hd.append target (hids id (List.mem_cons_self ..)))
        fun x hx => hids x (List.mem_cons_of_mem _ hx)
  rw [Draft.moveChildren, ← Array.foldl_toList]
  exact moved _ d h (by simpa using hr)

/-- A new element on an empty page is the root. -/
theorem hasRoot_append_page (space : Space) (tag : String) (attributes : List Attribute) :
    ((({} : Draft).add (.element space tag attributes)).1.append page 1).HasRoot 1 := by
  have hnodes : ((({} : Draft).add (.element space tag attributes)).1.append page 1).nodes =
      #[⟨.page, none, #[1]⟩, ⟨.element space tag attributes, some page, #[]⟩] := by
    simp [Draft.append, Draft.add, Draft.detach, Draft.change, Draft.parent?, page]
  constructor
  · rw [name?_eq, hnodes]
    rfl
  · intro p
    rw [mem_children_iff, hnodes]
    match p with
    | 0 => simp [page]
    | 1 => simp [page]
    | p + 2 => simp [page]

end Draft

/-! ## Builders -/

/-- A node that may be moved: neither the root nor the page. -/
def Movable (r id : Nat) : Prop := id ≠ r ∧ id ≠ Draft.page

theorem Draft.HasRoot.movable_new {d : Draft} {r : Nat} (h : d.HasRoot r) (content : DraftContent) :
    Movable r (d.add content).2 :=
  ⟨h.new_ne content, h.new_ne_page content⟩

namespace Builder

/-- The draft has the root `r`, which is open at most as the outermost element. -/
structure Rooted (b : Builder) (r : Nat) : Prop where
  draft : b.draft.HasRoot r
  outermost : b.stack.Pairwise fun id _ => id ≠ r
  page_notMem : Draft.page ∉ b.stack
  head : ∀ id, b.head? = some id → Movable r id

variable {b : Builder} {r : Nat}

/-- Nothing but the draft, the open elements and the head matters. -/
@[grind =] theorem rooted_mk {m n : Mode} {fs : List Formatting} {f? : Option Nat} {foster old : Bool}
    {cs : List Char} {skip : Bool} {c? : Option (Content × String)} :
    Rooted ⟨b.draft, b.stack, m, n, fs, b.head?, f?, foster, old, cs, skip, c?⟩ r ↔ b.Rooted r :=
  ⟨fun h => ⟨h.draft, h.outermost, h.page_notMem, h.head⟩,
    fun h => ⟨h.draft, h.outermost, h.page_notMem, h.head⟩⟩

theorem Rooted.ite (h : b.Rooted r) {b' : Builder} (h' : b'.Rooted r) {c : Prop} [Decidable c] :
    (if c then b else b').Rooted r := by
  split
  · exact h
  · exact h'

theorem Rooted.withFormatting (h : b.Rooted r) (fs : List Formatting) :
    { b with formatting := fs }.Rooted r :=
  rooted_mk.mpr h

theorem Rooted.of_draft (h : b.Rooted r) {d : Draft} (hd : d.HasRoot r) :
    { b with draft := d }.Rooted r :=
  ⟨hd, h.outermost, h.page_notMem, h.head⟩

theorem Rooted.of_sublist (h : b.Rooted r) {s : List Nat} (hs : s.Sublist b.stack) :
    { b with stack := s }.Rooted r :=
  ⟨h.draft, h.outermost.sublist hs, fun hp => h.page_notMem (hs.subset hp), h.head⟩

@[grind ←] theorem Rooted.filter (h : b.Rooted r) (p : Nat → Bool) {m n : Mode} {fs : List Formatting}
    {f? : Option Nat} {foster old : Bool} {cs : List Char} {skip : Bool}
    {c? : Option (Content × String)} :
    Rooted ⟨b.draft, b.stack.filter p, m, n, fs, b.head?, f?, foster, old, cs, skip, c?⟩ r :=
  rooted_mk.mpr (h.of_sublist List.filter_sublist)

theorem Rooted.push (h : b.Rooted r) {id : Nat} (hid : Movable r id) :
    { b with stack := id :: b.stack }.Rooted r where
  draft := h.draft
  outermost := List.pairwise_cons.mpr ⟨fun _ _ => hid.1, h.outermost⟩
  page_notMem := by simpa [Ne.symm hid.2] using h.page_notMem
  head := h.head

/-- An element that something open stands outside of. -/
theorem Rooted.movable_of_mem_takeWhile (h : b.Rooted r) {id x : Nat} (hid : id ∈ b.stack)
    (hx : x ∈ b.stack.takeWhile (· ≠ id)) : Movable r x := by
  have hcut : b.stack.takeWhile (· ≠ id) ++ b.stack.dropWhile (· ≠ id) = b.stack :=
    List.takeWhile_append_dropWhile
  have hid' : id ∈ b.stack.dropWhile (· ≠ id) := by
    rw [← hcut, List.mem_append] at hid
    refine hid.resolve_left fun hin => ?_
    simpa using List.all_eq_true.mp (List.all_takeWhile (p := (· ≠ id))) id hin
  have hout := h.outermost
  rw [← hcut, List.pairwise_append] at hout
  refine ⟨hout.2.2 x hx id hid', ?_⟩
  rintro rfl
  exact h.page_notMem ((List.takeWhile_sublist _).subset hx)

/-! ### Closing -/

@[grind ←] theorem Rooted.pop (h : b.Rooted r) : b.pop.Rooted r :=
  h.of_sublist (List.drop_sublist ..)

@[grind ←] theorem Rooted.closeUpTo (h : b.Rooted r) (tags : List String) :
    (b.closeUpTo tags).Rooted r :=
  h.of_sublist ((List.drop_sublist ..).trans (List.dropWhile_sublist _))

@[grind ←] theorem Rooted.closeDownTo (h : b.Rooted r) (tags : List String) :
    (b.closeDownTo tags).Rooted r :=
  h.of_sublist (List.dropWhile_sublist _)

@[grind ←] theorem Rooted.closeImplied (h : b.Rooted r) (except : List String) :
    (b.closeImplied except).Rooted r :=
  h.of_sublist (List.dropWhile_sublist _)

@[grind ←] theorem Rooted.closeElement (h : b.Rooted r) (s : Scope) (tags except : List String) :
    (b.closeElement s tags except).Rooted r :=
  Rooted.ite ((h.closeImplied except).closeUpTo tags) h

@[grind ←] theorem Rooted.closeParagraph (h : b.Rooted r) : b.closeParagraph.Rooted r :=
  h.closeElement ..

@[grind ←] theorem Rooted.closeOrdinary (h : b.Rooted r) (name : String) :
    (b.closeOrdinary name).Rooted r := by
  unfold Builder.closeOrdinary
  dsimp only
  split
  · rename_i id rest hrest
    have hs : rest.Sublist b.stack :=
      (List.sublist_cons_self id rest).trans (hrest ▸ List.drop_sublist ..)
    exact Rooted.ite (h.of_sublist hs) h
  · exact h

@[grind ←] theorem Rooted.resetMode (h : b.Rooted r) : b.resetMode.Rooted r :=
  rooted_mk.mpr h

/-! ### Placing -/

theorem Rooted.put (h : b.Rooted r) (p : Place) {id : Nat} (hid : id ≠ r) : (b.put p id).Rooted r := by
  cases p with
  | inside parent => exact h.of_draft (h.draft.append parent hid)
  | before sibling => exact h.of_draft (h.draft.insertBefore sibling hid)

@[grind ←] theorem Rooted.insertChar (h : b.Rooted r) (c : Char) : (b.insertChar c).Rooted r := by
  unfold Builder.insertChar
  split
  · exact h.of_draft (h.draft.appendChar _ c)
  · exact h.of_draft (h.draft.charBefore _ c)

@[grind ←] theorem Rooted.insertComment (h : b.Rooted r) : b.insertComment.Rooted r :=
  (h.of_draft (h.draft.add .comment)).put b.place (h.draft.new_ne .comment)

theorem Rooted.create (h : b.Rooted r) (space : Space) (t : Tag) : (b.create space t).1.Rooted r :=
  h.of_draft (h.draft.add _)

theorem Rooted.movable_create (h : b.Rooted r) (space : Space) (t : Tag) :
    Movable r (b.create space t).2 :=
  h.draft.movable_new (.element space t.name t.attributes)

@[grind ←] theorem Rooted.openIn (h : b.Rooted r) (space : Space) (t : Tag) :
    (b.openIn space t).Rooted r :=
  ((h.create space t).put b.place (h.movable_create space t).1).push (h.movable_create space t)

@[grind ←] theorem Rooted.openTag (h : b.Rooted r) (t : Tag) : (b.openTag t).Rooted r :=
  h.openIn .html t

@[grind ←] theorem Rooted.openImplied (h : b.Rooted r) (tag : String) : (b.openImplied tag).Rooted r :=
  h.openTag _

@[grind ←] theorem Rooted.insertTag (h : b.Rooted r) (t : Tag) : (b.insertTag t).Rooted r :=
  (h.openTag t).pop

@[grind ←] theorem Rooted.openRaw (h : b.Rooted r) (t : Tag) (content : Content) :
    (b.openRaw t content).Rooted r :=
  rooted_mk.mpr (h.openTag t)

/-! ### Formatting -/

@[grind ←] theorem Rooted.markFormatting (h : b.Rooted r) : b.markFormatting.Rooted r :=
  rooted_mk.mpr h

@[grind ←] theorem Rooted.clearFormatting (h : b.Rooted r) : b.clearFormatting.Rooted r :=
  rooted_mk.mpr h

@[grind ←] theorem Rooted.forget (h : b.Rooted r) (id : Nat) : (b.forget id).Rooted r :=
  rooted_mk.mpr h

@[grind ←] theorem Rooted.replaceFormatting (h : b.Rooted r) (old new : Nat) (t : Tag) :
    (b.replaceFormatting old new t).Rooted r :=
  rooted_mk.mpr h

@[grind ←] theorem Rooted.openFormatting (h : b.Rooted r) (t : Tag) : (b.openFormatting t).Rooted r :=
  rooted_mk.mpr (Rooted.openTag (Rooted.ite (h.forget _) h) t)

@[grind ←] theorem Rooted.reopenFormatting (h : b.Rooted r) : b.reopenFormatting.Rooted r := by
  unfold Builder.reopenFormatting
  dsimp only
  generalize (b.formatting.takeWhile _).reverse = closed
  induction closed generalizing b with
  | nil => exact h
  | cons f closed ih =>
    refine ih ?_
    cases f with
    | marker => exact h
    | element id t => exact (h.openTag t).replaceFormatting ..

/-! ### Splitting -/

/-- A copy takes the place of an open element. -/
theorem Rooted.substitute (h : b.Rooted r) {copy : Nat} (hcopy : Movable r copy) (id : Nat) :
    { b with stack := b.stack.map fun x => if x = id then copy else x }.Rooted r where
  draft := h.draft
  outermost := by
    refine List.pairwise_map.mpr (h.outermost.imp fun {x _} hx => ?_)
    split
    · exact hcopy.1
    · exact hx
  page_notMem := by
    intro hp
    obtain ⟨x, hx, hpage⟩ := List.mem_map.mp hp
    split at hpage
    · exact hcopy.2 hpage
    · exact h.page_notMem (hpage ▸ hx)
  head := h.head

/-- A copy is opened inside an open element. -/
theorem Rooted.openInside (h : b.Rooted r) {copy : Nat} (hcopy : Movable r copy) {s : List Nat}
    (hs : s.Sublist b.stack) (block : Nat) :
    { b with stack := s.flatMap fun x => if x = block then [copy, x] else [x] }.Rooted r where
  draft := h.draft
  outermost := by
    have hmem : ∀ x y, y ∈ (if x = block then [copy, x] else [x]) → y = copy ∨ y = x := by
      intro x y
      split <;> simp +contextual
    have houter := h.outermost.sublist hs
    refine List.pairwise_flatMap.mpr ⟨fun x _ => ?_, houter.imp fun {x _} hx y hy _ _ => ?_⟩
    · split <;> simp [hcopy.1]
    · rcases hmem x y hy with rfl | rfl
      · exact hcopy.1
      · exact hx
  page_notMem := by
    intro hp
    obtain ⟨x, hx, hpage⟩ := List.mem_flatMap.mp hp
    have hxp : x ≠ Draft.page := fun h' => h.page_notMem (hs.subset (h' ▸ hx))
    split at hpage <;> simp_all [Ne.symm hcopy.2, Ne.symm hxp]
  head := h.head

/-- A walk moves neither the root nor the page. -/
structure Walk.Rooted (w : Walk) (r : Nat) : Prop where
  builder : w.builder.Rooted r
  last : Movable r w.last

theorem Walk.Rooted.step {w : Walk} (h : w.Rooted r) (block id : Nat) : (w.step block id).Rooted r := by
  have hdropped := h.builder.of_sublist (List.filter_sublist (p := (· ≠ id)))
  unfold Walk.step
  dsimp only
  split
  · exact ⟨hdropped, h.last⟩
  · rename_i t _
    split
    · exact ⟨hdropped.forget id, h.last⟩
    · have hcopy := h.builder.movable_create .html t
      have hb := ((h.builder.create .html t).substitute hcopy id).replaceFormatting id
        (w.builder.create .html t).2 t
      exact ⟨hb.of_draft (hb.draft.append _ h.last.1), hcopy⟩

theorem Walk.Rooted.walk {w : Walk} (h : w.Rooted r) (block : Nat) (ids : List Nat) :
    (ids.foldl (Walk.step block) w).Rooted r := by
  induction ids generalizing w with
  | nil => exact h
  | cons id ids ih => exact ih (h.step block id)

theorem Rooted.splitAround (h : b.Rooted r) {id block : Nat} (hblock : Movable r block) (t : Tag) :
    (b.splitAround id block t).Rooted r := by
  unfold Builder.splitAround
  dsimp only
  generalize List.drop 1 _ = between
  have hw : (between.foldl (Walk.step block) ⟨b, block, none, 0⟩).Rooted r :=
    Walk.Rooted.walk ⟨h, hblock⟩ block between
  generalize between.foldl (Walk.step block) ⟨b, block, none, 0⟩ = w at hw ⊢
  generalize hput : Builder.put _ _ w.last = placed
  have hplaced : placed.Rooted r :=
    hput ▸ (hw.builder.of_draft (hw.builder.draft.detach hw.last.1)).put _ hw.last.1
  have hmade := hplaced.create .html t
  have hcopy := hplaced.movable_create .html t
  have hmoved := hmade.of_draft
    ((hmade.draft.moveChildren hblock.2 (placed.create .html t).2).append block hcopy.1)
  split
  · exact (hmoved.replaceFormatting ..).openInside hcopy List.filter_sublist block
  · exact (hmoved.withFormatting _).openInside hcopy List.filter_sublist block

theorem Rooted.closeFormattingIn (h : b.Rooted r) (name : String) (rounds : Nat) :
    (b.closeFormattingIn name rounds).Rooted r := by
  induction rounds generalizing b with
  | zero => exact h
  | succ rounds ih =>
    unfold Builder.closeFormattingIn
    split
    · exact h.closeOrdinary name
    · rename_i id t _
      split
      · exact h.forget id
      · rename_i hopen
        split
        · exact h
        · dsimp only
          split
          · exact (h.of_sublist ((List.drop_sublist ..).trans (List.dropWhile_sublist _))).forget id
          · rename_i block hblock
            have hid : id ∈ b.stack := by simpa using hopen
            have hin : block ∈ b.stack.takeWhile (· ≠ id) := by
              simpa using List.mem_of_find?_eq_some hblock
            exact ih (h.splitAround (h.movable_of_mem_takeWhile hid hin) t)

@[grind ←] theorem Rooted.closeFormatting (h : b.Rooted r) (name : String) :
    (b.closeFormatting name).Rooted r := by
  unfold Builder.closeFormatting
  split
  · rename_i id rest hstack
    split
    · exact h.of_sublist (hstack ▸ List.sublist_cons_self id rest)
    · exact h.closeFormattingIn name 8
  · exact h

end Builder

end PageAudit.Html
