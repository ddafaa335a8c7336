import PageAudit.Proofs.Document.Stored
import PageAudit.Proofs.Document.Traversal
import PageAudit.Proofs.Markup.Budget

/-!
# Loops over a document

Descendants and text are collected by a loop over a stack of nodes, and markup is written by a
recursion that stops when its buffer is full. Here both are judgments without a number of steps
(`Document.Visits`, `Document.Writes`) that list the nodes as they are visited. There is a rule for
each kind of node and none for a number that the store does not have, so what is derived is a run that
ends and looks up stored nodes only.

* `Sound.visits_iff`: the loop from a node ends, and has then visited its preorder.
* `Sound.exists_writes`: writing ends, whatever is in the buffer, with the buffer that
  `Excerpt.write` gives. It has visited some of the preorder in its order: a full buffer and void
  elements leave nodes out.
* `Document.arena_of_steps`: the store of a document that any steps have built, and these runs in it.
-/

namespace PageAudit

namespace Document

/-- **The loop over a stack**: the node on top is visited, and the children of an element take its
place, the first of them on top. -/
inductive Visits (d : Document) : List NodeId → List NodeId → Prop
  | done : Visits d [] []
  | text {id : NodeId} {content : String} {pending visited : List NodeId} :
    d.kind? id = some (.text content) → Visits d pending visited →
      Visits d (id :: pending) (id :: visited)
  | element {id : NodeId} {tag : String} {attributes : List Attribute}
    {pending visited : List NodeId} : d.kind? id = some (.element tag attributes) →
      Visits d (d.childrenOf id ++ pending) visited → Visits d (id :: pending) (id :: visited)

/-- **Writing nodes in a row** into a buffer: when it is full the rest is left out, and it takes no
closing tag either; an element is visited before its children, which are written between its tags. -/
inductive Writes (d : Document) : Excerpt → List NodeId → List NodeId → Excerpt → Prop
  | done {b : Excerpt} : Writes d b [] [] b
  | full {b : Excerpt} {id : NodeId} {rest : List NodeId} : b.cut = true → Writes d b (id :: rest) [] b
  | text {b b' : Excerpt} {id : NodeId} {rest visited : List NodeId} {content : String} :
    b.cut = false → d.kind? id = some (.text content) →
      Writes d (b.push (Markup.text content)) rest visited b' →
      Writes d b (id :: rest) (id :: visited) b'
  | void {b b' : Excerpt} {id : NodeId} {rest visited : List NodeId} {tag : String}
    {attributes : List Attribute} :
    b.cut = false → d.kind? id = some (.element tag attributes) → Markup.isVoid tag = true →
      Writes d (b.push (Markup.openingTag tag attributes)) rest visited b' →
      Writes d b (id :: rest) (id :: visited) b'
  | element {b filled b' : Excerpt} {id : NodeId} {rest below visited : List NodeId} {tag : String}
    {attributes : List Attribute} :
    b.cut = false → d.kind? id = some (.element tag attributes) → Markup.isVoid tag = false →
      Writes d (b.push (Markup.openingTag tag attributes)) (d.childrenOf id) below filled →
      Writes d (filled.push (Markup.closingTag tag)) rest visited b' →
      Writes d b (id :: rest) (id :: (below ++ visited)) b'

/-! ## One run -/

theorem Visits.unique {d : Document} {pending v w : List NodeId} (hv : d.Visits pending v)
    (hw : d.Visits pending w) : v = w := by
  induction hv generalizing w with
  | done =>
    cases hw
    rfl
  | text hk _ ih =>
    cases hw with
    | text _ hw => rw [ih hw]
    | element hk' _ => cases hk.symm.trans hk'
  | element hk _ ih =>
    cases hw with
    | text hk' _ => cases hk.symm.trans hk'
    | element _ hw => rw [ih hw]

theorem Writes.unique {d : Document} {b c c' : Excerpt} {ids v v' : List NodeId}
    (h : d.Writes b ids v c) (h' : d.Writes b ids v' c') : v = v' ∧ c = c' := by
  induction h generalizing v' c' with
  | done =>
    cases h'
    exact ⟨rfl, rfl⟩
  | full hb =>
    cases h' with
    | full => exact ⟨rfl, rfl⟩
    | text hb' | void hb' | element hb' => cases hb.symm.trans hb'
  | text hb hk _ ih =>
    cases h' with
    | full hb' => cases hb.symm.trans hb'
    | text _ hk' hw =>
      cases hk.symm.trans hk'
      obtain ⟨rfl, rfl⟩ := ih hw
      exact ⟨rfl, rfl⟩
    | void _ hk' | element _ hk' => cases hk.symm.trans hk'
  | void hb hk hvoid _ ih =>
    cases h' with
    | full hb' => cases hb.symm.trans hb'
    | text _ hk' => cases hk.symm.trans hk'
    | void _ hk' _ hw =>
      cases hk.symm.trans hk'
      obtain ⟨rfl, rfl⟩ := ih hw
      exact ⟨rfl, rfl⟩
    | element _ hk' hvoid' =>
      cases hk.symm.trans hk'
      cases hvoid.symm.trans hvoid'
  | element hb hk hvoid _ _ ihb ihv =>
    cases h' with
    | full hb' => cases hb.symm.trans hb'
    | text _ hk' => cases hk.symm.trans hk'
    | void _ hk' hvoid' =>
      cases hk.symm.trans hk'
      cases hvoid.symm.trans hvoid'
    | element _ hk' _ hb hv =>
      cases hk.symm.trans hk'
      obtain ⟨rfl, rfl⟩ := ihb hb
      obtain ⟨rfl, rfl⟩ := ihv hv
      exact ⟨rfl, rfl⟩

/-! ## Runs that end -/

/-- The loop goes through what is below the nodes on the stack, and then through the rest. -/
theorem visits_append {d : Document} {ids : List NodeId}
    (h : ∀ id ∈ ids, ∀ {pending visited}, d.Visits pending visited →
      d.Visits (id :: pending) (d.preorder id ++ visited)) {pending visited : List NodeId}
    (hp : d.Visits pending visited) :
    d.Visits (ids ++ pending) (ids.flatMap d.preorder ++ visited) := by
  induction ids with
  | nil => exact hp
  | cons id ids ih =>
    rw [List.flatMap_cons, List.append_assoc]
    exact h id (by simp) (ih fun x hx => h x (List.mem_cons_of_mem _ hx))

/-- Writing the children of a node ends, and visits some of what is below. -/
def WritesBelow (d : Document) (id : NodeId) : Prop :=
  ∀ b : Excerpt, ∃ visited, visited.Sublist ((d.childrenOf id).flatMap d.preorder) ∧
    d.Writes b (d.childrenOf id) visited (b.writeAll ((d.childrenOf id).map d.tree))

namespace Sound

variable {d : Document} (h : d.Sound)
include h

theorem visits_cons {id : NodeId} (hid : id < d.nodes.size) {pending visited : List NodeId}
    (hp : d.Visits pending visited) : d.Visits (id :: pending) (d.preorder id ++ visited) := by
  induction id using h.induction generalizing pending visited with
  | step id ih =>
    obtain ⟨kind, hk⟩ := exists_kind_of_lt hid
    rw [h.preorder_eq hid, List.cons_append]
    cases kind with
    | text content =>
      rw [h.childrenOf_of_text hk]
      exact .text hk hp
    | element tag attributes =>
      exact .element hk (visits_append (fun c hc _ _ => ih c hc (h.child_lt_size id c hc)) hp)

/-- **The loop from a node** ends, and it has visited the preorder of the node. -/
theorem visits_iff {id : NodeId} (hid : id < d.nodes.size) {visited : List NodeId} :
    d.Visits [id] visited ↔ visited = d.preorder id := by
  have run : d.Visits [id] (d.preorder id) := by
    simpa using h.visits_cons hid .done
  constructor
  · exact fun hv => hv.unique run
  · rintro rfl
    exact run

theorem exists_writes_row {ids : List NodeId} (hids : ∀ id ∈ ids, id < d.nodes.size)
    (below : ∀ id ∈ ids, WritesBelow d id) (b : Excerpt) :
    ∃ visited, visited.Sublist (ids.flatMap d.preorder) ∧
      d.Writes b ids visited (b.writeAll (ids.map d.tree)) := by
  -- for every buffer, since each node begins with what the one before it has left
  induction ids generalizing b with
  | nil => exact ⟨[], List.Sublist.refl _, by rw [List.map_nil, Excerpt.writeAll]; exact .done⟩
  | cons id ids ih =>
    have hid := hids id (by simp)
    have rest := ih (fun x hx => hids x (List.mem_cons_of_mem _ hx)) fun x hx =>
      below x (List.mem_cons_of_mem _ hx)
    cases hb : b.cut with
    | true =>
      rw [Excerpt.writeAll_of_cut hb]
      exact ⟨[], List.nil_sublist _, .full hb⟩
    | false =>
      obtain ⟨kind, hk⟩ := exists_kind_of_lt hid
      rw [List.map_cons, Excerpt.writeAll_cons hb, List.flatMap_cons, h.preorder_eq hid]
      cases kind with
      | text content =>
        obtain ⟨visited, hsub, hw⟩ := rest (b.push (Markup.text content))
        rw [tree_text hk, Excerpt.write_text hb, h.childrenOf_of_text hk]
        exact ⟨id :: visited, hsub.cons_cons id, .text hb hk hw⟩
      | element tag attributes =>
        rw [h.tree_element hk]
        cases hv : Markup.isVoid tag with
        | true =>
          obtain ⟨visited, hsub, hw⟩ := rest (b.push (Markup.openingTag tag attributes))
          rw [Excerpt.write_void hb hv]
          exact ⟨id :: visited, (hsub.trans (List.sublist_append_right _ _)).cons_cons id,
            .void hb hk hv hw⟩
        | false =>
          obtain ⟨inner, hin, hwi⟩ := below id (by simp) (b.push (Markup.openingTag tag attributes))
          rw [Excerpt.write_element hb hv]
          obtain ⟨visited, hsub, hw⟩ := rest _
          exact ⟨id :: (inner ++ visited), (hin.append hsub).cons_cons id,
            .element hb hk hv hwi hw⟩

theorem writesBelow (id : NodeId) : WritesBelow d id := by
  induction id using h.induction with
  | step id ih => exact h.exists_writes_row (h.child_lt_size id) ih

/-- **Writing a node** ends, whatever is in the buffer. What is written is the markup of its tree, and
what is visited is some of its preorder, in its order. -/
theorem exists_writes {id : NodeId} (hid : id < d.nodes.size) (b : Excerpt) :
    ∃ visited, visited.Sublist (d.preorder id) ∧
      ∀ v b', d.Writes b [id] v b' ↔ v = visited ∧ b' = b.write (d.tree id) := by
  have stored : ∀ x ∈ [id], x < d.nodes.size := by simpa using hid
  obtain ⟨visited, hsub, hw⟩ := h.exists_writes_row stored (fun x _ => h.writesBelow x) b
  rw [List.map_singleton, Excerpt.writeAll_singleton] at hw
  refine ⟨visited, by simpa using hsub, fun v b' => ⟨fun hv => hv.unique hw, ?_⟩⟩
  rintro ⟨rfl, rfl⟩
  exact hw

end Sound

end Document

/-! ## Documents that steps have built -/

/-- **The loops from an element** end, each with one run only. It looks up nodes of the store, none of
them twice, and what the loop returns is read off it. -/
structure Element.Loops (e : Element) : Prop where
  visits : ∃ visited, (∀ v, e.document.Visits [e.id] v ↔ v = visited) ∧ visited.Nodup ∧
    (∀ x ∈ visited, x < e.document.nodes.size) ∧
    e.descendants = (visited.filter e.document.isElement).map (⟨e.document, ·⟩) ∧
    e.textContent = String.join (visited.map e.document.textAt)
  writes : ∀ limit, ∃ visited b,
    (∀ v b', e.document.Writes ⟨limit, [], 0, false⟩ [e.id] v b' ↔ v = visited ∧ b' = b) ∧
    visited.Nodup ∧ (∀ x ∈ visited, x < e.document.nodes.size) ∧
    e.excerpt limit = .ofList b.result ∧
    (e.outerHtml.length ≤ limit → e.outerHtml = .ofList b.result)

theorem Element.loops {e : Element} (h : e.document.Sound) (he : e.id < e.document.nodes.size) :
    e.Loops := by
  have stored : ∀ x ∈ e.document.preorder e.id, x < e.document.nodes.size := fun x =>
    h.lt_size_of_mem_preorder he
  refine ⟨⟨_, fun v => h.visits_iff he, h.nodup_preorder he, stored, rfl, rfl⟩, fun limit => ?_⟩
  obtain ⟨visited, hsub, hw⟩ := h.exists_writes he ⟨limit, [], 0, false⟩
  refine ⟨visited, _, hw, (h.nodup_preorder he).sublist hsub, fun x hx => stored x (hsub.subset hx),
    rfl, fun hl => ?_⟩
  have room : e.tree.markup.length ≤ limit := by
    simpa [Element.outerHtml] using hl
  exact congrArg String.ofList (Tree.excerpt_of_le room).symm

namespace Document

/-- **The store of a document**: a child has a greater number than the node that lists it, and none is
listed twice; a text lists none, and the root is an element; and elements have proper names. -/
structure Arena (d : Document) : Prop where
  child : ∀ a c, c ∈ d.childrenOf a → a < c ∧ c < d.nodes.size
  listed : d.listed.Nodup
  text : ∀ id content, d.kind? id = some (.text content) → d.childrenOf id = []
  root : ∀ r, d.root? = some r → d.isElement r = true
  named : d.Named

theorem Sound.arena {d : Document} (h : d.Sound) (named : d.Named) : d.Arena where
  child := fun a c hc => ⟨h.lt_child a c hc, h.child_lt_size a c hc⟩
  listed := h.nodup_listed
  text := fun _ _ hk => h.childrenOf_of_text hk
  root := h.root
  named := named

/-- **The arena invariant.** Whatever steps have built a document, its store is an arena, a number that
was given to a root is listed nowhere, and from every element the loops end, look up nodes of the store
only and visit none twice. -/
theorem arena_of_steps (steps : List BuildStep) : (ofSteps steps).Arena ∧
    (∀ before tag attributes after, steps = before ++ .root tag attributes :: after →
      (ofSteps before).nextId ∉ (ofSteps steps).listed) ∧
    ∀ id, (ofSteps steps).isElement id = true → Element.Loops ⟨ofSteps steps, id⟩ := by
  have h : (ofSteps steps).Sound := (Build.ok_run steps).sound
  refine ⟨h.arena (Build.named_run steps), fun before tag attributes after hsteps => ?_,
    fun id hid => Element.loops h (lt_size_of_isElement hid)⟩
  rw [hsteps]
  exact Build.root_notMem_listed before tag attributes after

/-- A paragraph with a line break, then a list with a text in its first item as a new root. -/
def twoRoots : List BuildStep :=
  [.root "P" [], .element 0 "BR" [], .root "UL" [⟨"ID", "a"⟩, ⟨"id", "b"⟩], .element 2 "li" [],
    .text 3 "one", .element 2 "li" []]

/-- Neither root is listed, of the two attributes the first is there, and the loops from the list do
not come to the paragraph. -/
theorem arena_of_steps_twoRoots :
    (ofSteps twoRoots).Arena ∧ (ofSteps twoRoots).listed = [1, 3, 5, 4] ∧
      0 ∉ (ofSteps twoRoots).listed ∧ 2 ∉ (ofSteps twoRoots).listed ∧
      (ofSteps twoRoots).kind? 2 = some (.element "ul" [⟨"id", "a"⟩]) ∧
      (ofSteps twoRoots).preorder 2 = [2, 3, 4, 5] ∧
      Element.Loops ⟨ofSteps twoRoots, 0⟩ ∧ Element.Loops ⟨ofSteps twoRoots, 2⟩ := by
  obtain ⟨arena, roots, loops⟩ := arena_of_steps twoRoots
  exact ⟨arena, by decide, roots [] _ _ _ rfl, roots (twoRoots.take 2) _ _ _ rfl, by decide,
    by decide, loops 0 (by decide), loops 2 (by decide)⟩

end Document

end PageAudit
