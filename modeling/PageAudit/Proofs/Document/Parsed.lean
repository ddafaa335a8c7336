import PageAudit.Proofs.Document.Growth
import PageAudit.Html.Node

/-!
# Documents of parsed pages

A parsed page is put into a document element by element: the children of one are appended, and what is
below them waits in a list (`Document.addPending`).

* `Sound.extends_addChildren`: one turn appends nodes to one element only, and they are the parsed ones
  in their order (`Listed`).
* `Ready`: what waits is for childless elements, each of which waits once. Every turn keeps this
  (`Ready.turn`).
* `Ready.fills`: so in the end every element that waited has all that was pending below it (`Shown`),
  and nothing else has changed.

So the document of a parsed page is sound, whatever was parsed (`sound_ofParsed`), and if an element
was parsed there is a root (`Html.Parser.YieldsRoot.exists_root`).
-/

namespace PageAudit

namespace Document

/-! ## One turn -/

/-- The nodes `ids` are the parsed nodes without what is below them. For each of their elements that is
pending. -/
inductive Listed (d : Document) : List Html.Node → List NodeId → List Pending → Prop
  | nil : Listed d [] [] []
  | element {id : NodeId} {tag : String} {attributes : List Attribute}
    {children ns : List Html.Node} {ids : List NodeId} {pending : List Pending} :
    d.kind? id = some (Node.element tag (Attribute.sorted attributes)).kind →
      Listed d ns ids pending →
      Listed d (.element tag attributes children :: ns) (id :: ids) (⟨id, children⟩ :: pending)
  | text {id : NodeId} {content : String} {ns : List Html.Node} {ids : List NodeId}
    {pending : List Pending} : d.kind? id = some (.text content) → Listed d ns ids pending →
      Listed d (.text content :: ns) (id :: ids) pending
  | other {ns : List Html.Node} {ids : List NodeId} {pending : List Pending} :
    Listed d ns ids pending → Listed d (.other :: ns) ids pending

namespace Listed

variable {d : Document} {ns : List Html.Node} {ids : List NodeId} {pending : List Pending}
  (h : d.Listed ns ids pending)
include h

theorem sublist : (pending.map (·.parent)).Sublist ids := by
  induction h with
  | nil => exact List.Sublist.refl []
  | element _ _ ih => exact ih.cons_cons _
  | text _ _ ih => exact ih.cons _
  | other _ ih => exact ih

theorem isElement : ∀ q ∈ pending, d.isElement q.parent = true := by
  induction h with
  | nil => simp
  | element hk _ ih => exact List.forall_mem_cons.2 ⟨isElement_iff.2 ⟨_, _, hk⟩, ih⟩
  | text _ _ ih => exact ih
  | other _ ih => exact ih

theorem congr {d' : Document} (hk : ∀ id ∈ ids, d'.kind? id = d.kind? id) :
    d'.Listed ns ids pending := by
  induction h with
  | nil => exact .nil
  | element hkind _ ih =>
    obtain ⟨hid, hids⟩ := List.forall_mem_cons.1 hk
    exact .element (hid.trans hkind) (ih hids)
  | text hkind _ ih =>
    obtain ⟨hid, hids⟩ := List.forall_mem_cons.1 hk
    exact .text (hid.trans hkind) (ih hids)
  | other _ ih => exact .other (ih hk)

end Listed

/-- **One turn** appends to one element, and what it appends are the parsed nodes in their order. -/
theorem Sound.extends_addChildren {d : Document} (h : d.Sound) {p : NodeId}
    (hp : d.isElement p = true) (ns : List Html.Node) : ∃ ids,
      d.Extends (d.addChildren p ns).1 p ids ∧
        (d.addChildren p ns).1.Listed ns ids (d.addChildren p ns).2 := by
  induction ns generalizing d with
  | nil => exact ⟨[], h.extends_refl p, .nil⟩
  | cons n ns ih =>
    -- a node that was appended stays what it is while the others follow
    have kept : ∀ {n : Node} {d' : Document} {ids : List NodeId}, (d.append p n).Extends d' p ids →
        d'.kind? d.nextId = some n.kind := by
      intro n d' ids hx
      rw [hx.kind d.nextId (by simp [nextId]), kind?_append, if_pos rfl]
    cases n with
    | element tag attributes children =>
      have first := h.extends_append hp (n := .element tag (Attribute.sorted attributes)) rfl
      obtain ⟨ids, rest, listed⟩ := ih first.sound (isElement_append p _ hp)
      exact ⟨_, first.trans rest, .element (kept rest) listed⟩
    | text content =>
      have first := h.extends_append hp (n := .text content) rfl
      obtain ⟨ids, rest, listed⟩ := ih first.sound (isElement_append p _ hp)
      exact ⟨_, first.trans rest, .text (kept rest) listed⟩
    | other =>
      obtain ⟨ids, rest, listed⟩ := ih h hp
      exact ⟨ids, rest, .other listed⟩

/-! ## Every turn -/

/-- What is pending is for elements without children, and for each of them once. -/
structure Ready (d : Document) (pending : List Pending) : Prop where
  sound : d.Sound
  isElement : ∀ q ∈ pending, d.isElement q.parent = true
  childless : ∀ q ∈ pending, d.childrenOf q.parent = []
  nodup : (pending.map (·.parent)).Nodup

/-- What one turn does to a document that is ready for it. -/
structure Turned (d d' : Document) (p : Pending) (ids : List NodeId) (found pending : List Pending) :
    Prop where
  grown : d.Extends d' p.parent ids
  listed : d'.Listed p.children ids found
  children : d'.childrenOf p.parent = ids
  ready : d'.Ready (found ++ pending)
  fresh : ∀ q ∈ found, d.nodes.size ≤ q.parent

theorem Ready.turn {d : Document} {p : Pending} {pending : List Pending} (h : d.Ready (p :: pending)) :
    ∃ ids, Turned d (d.addChildren p.parent p.children).1 p ids
      (d.addChildren p.parent p.children).2 pending := by
  obtain ⟨hp, isElement⟩ := List.forall_mem_cons.1 h.isElement
  obtain ⟨hpc, childless⟩ := List.forall_mem_cons.1 h.childless
  obtain ⟨hpn, nodup⟩ := List.nodup_cons.1 h.nodup
  obtain ⟨ids, hx, hl⟩ := h.sound.extends_addChildren hp p.children
  have children := hx.children
  rw [hpc, List.nil_append] at children
  have fresh : ∀ q ∈ (d.addChildren p.parent p.children).2, d.nodes.size ≤ q.parent := fun q hq =>
    hx.fresh q.parent (hl.sublist.subset (List.mem_map.2 ⟨q, hq, rfl⟩))
  have old : ∀ q ∈ pending, q.parent < d.nodes.size := fun q hq =>
    lt_size_of_isElement (isElement q hq)
  refine ⟨ids, hx, hl, children, ⟨hx.sound, fun q hq => ?_, fun q hq => ?_, ?_⟩, fresh⟩
  · rcases List.mem_append.1 hq with hq | hq
    · exact hl.isElement q hq
    · rw [isElement_congr (hx.kind q.parent (old q hq)), isElement q hq]
  · rcases List.mem_append.1 hq with hq | hq
    · have hne : q.parent ≠ p.parent :=
        Nat.ne_of_gt (Nat.lt_of_lt_of_le (lt_size_of_isElement hp) (fresh q hq))
      rw [hx.children_of_ne q.parent hne, childrenOf_eq_nil (fresh q hq)]
    · have hne : q.parent ≠ p.parent := fun he => hpn (List.mem_map.2 ⟨q, hq, he⟩)
      rw [hx.children_of_ne q.parent hne, childless q hq]
  · rw [List.map_append, List.nodup_append]
    refine ⟨hl.sublist.nodup (children ▸ hx.sound.nodup p.parent), nodup, fun a ha b hb => ?_⟩
    obtain ⟨q, hq, rfl⟩ := List.mem_map.1 ha
    obtain ⟨q', hq', rfl⟩ := List.mem_map.1 hb
    exact Nat.ne_of_gt (Nat.lt_of_lt_of_le (old q' hq') (fresh q hq))

/-- The nodes `ids` are the parsed nodes with all that is below them. -/
inductive Shown (d : Document) : List Html.Node → List NodeId → Prop
  | nil : Shown d [] []
  | element {id : NodeId} {tag : String} {attributes : List Attribute}
    {children ns : List Html.Node} {ids : List NodeId} :
    d.kind? id = some (Node.element tag (Attribute.sorted attributes)).kind →
      Shown d children (d.childrenOf id) → Shown d ns ids →
      Shown d (.element tag attributes children :: ns) (id :: ids)
  | text {id : NodeId} {content : String} {ns : List Html.Node} {ids : List NodeId} :
    d.kind? id = some (.text content) → Shown d ns ids → Shown d (.text content :: ns) (id :: ids)
  | other {ns : List Html.Node} {ids : List NodeId} : Shown d ns ids → Shown d (.other :: ns) ids

theorem Listed.shown {d : Document} {ns : List Html.Node} {ids : List NodeId}
    {pending : List Pending} (h : d.Listed ns ids pending)
    (below : ∀ q ∈ pending, d.Shown q.children (d.childrenOf q.parent)) : d.Shown ns ids := by
  induction h with
  | nil => exact .nil
  | element hk _ ih =>
    obtain ⟨hid, hrest⟩ := List.forall_mem_cons.1 below
    exact .element hk hid (ih hrest)
  | text hk _ ih => exact .text hk (ih below)
  | other _ ih => exact .other (ih below)

/-- **`d'` is `d` with all that was pending**, and nothing else is changed. -/
structure Fills (d d' : Document) (pending : List Pending) : Prop where
  sound : d'.Sound
  root : d'.root? = d.root?
  kind : ∀ id : Nat, id < d.nodes.size → d'.kind? id = d.kind? id
  children : ∀ id : Nat, id < d.nodes.size → id ∉ pending.map (·.parent) →
    d'.childrenOf id = d.childrenOf id
  shown : ∀ q ∈ pending, d'.Shown q.children (d'.childrenOf q.parent)

/-- **The loop ends with everything in its place.** -/
theorem Ready.fills {d : Document} {pending : List Pending} (h : d.Ready pending) :
    d.Fills (d.addPending pending) pending := by
  induction d, pending using addPending.induct with
  | case1 d =>
    rw [addPending]
    exact ⟨h.sound, rfl, fun _ _ => rfl, fun _ _ _ => rfl, by simp⟩
  | case2 d p pending added ih =>
    rw [addPending]
    obtain ⟨ids, turned⟩ := h.turn
    obtain ⟨hx, listed, children, ready, fresh⟩ := turned
    have rest := ih ready
    obtain ⟨found, pending'⟩ := List.forall_mem_append.1 rest.shown
    have hpe : d.isElement p.parent = true := h.isElement p (by simp)
    have hps : p.parent < d.nodes.size := lt_size_of_isElement hpe
    have notFound : ∀ id : Nat, id < d.nodes.size → id ∉ added.2.map (·.parent) := by
      intro id hid hm
      obtain ⟨q, hq, rfl⟩ := List.mem_map.1 hm
      exact Nat.not_lt.2 (fresh q hq) hid
    refine ⟨rest.sound, rest.root.trans hx.root, fun id hid => ?_, fun id hid hn => ?_, ?_⟩
    · rw [rest.kind id (hx.lt_size hid), hx.kind id hid]
    · rw [List.map_cons, List.mem_cons, not_or] at hn
      rw [rest.children id (hx.lt_size hid), hx.children_of_ne id hn.1]
      rw [List.map_append, List.mem_append, not_or]
      exact ⟨notFound id hid, hn.2⟩
    · refine List.forall_mem_cons.2 ⟨?_, pending'⟩
      -- the element of this turn is not pending any more, so it keeps the children it has got
      have hpp : p.parent ∉ (added.2 ++ pending).map (·.parent) := by
        rw [List.map_append, List.mem_append, not_or]
        exact ⟨notFound p.parent hps, (List.nodup_cons.1 h.nodup).1⟩
      rw [rest.children p.parent (hx.lt_size hps) hpp, children]
      refine (listed.congr fun id hid => rest.kind id ?_).shown found
      exact hx.sound.child_lt_size p.parent id (children ▸ hid)

/-! ## Parsed pages -/

/-- The root alone is ready for all that is below it. -/
theorem ready_root (tag : String) (attributes : List Attribute) (children : List Html.Node) :
    (empty.createRoot tag attributes).Ready [⟨empty.nextId, children⟩] where
  sound := sound_empty.createRoot tag attributes
  isElement := by simpa using isElement_nextId_createRoot empty tag attributes
  childless := by simpa using childrenOf_nextId_createRoot empty tag attributes
  nodup := by simp

/-- **The document of a page** is sound, whatever was read. -/
theorem sound_ofParsed (n : Html.Node) : (ofParsed n).Sound := by
  cases n with
  | element tag attributes children =>
    exact (ready_root tag (Attribute.sorted attributes) children).fills.sound
  | text content => exact sound_empty
  | other => exact sound_empty

theorem root?_ofParsed (tag : String) (attributes : List Attribute) (children : List Html.Node) :
    (ofParsed (.element tag attributes children)).root? = some empty.nextId :=
  (ready_root tag (Attribute.sorted attributes) children).fills.root

end Document

/-- The document of a page has the root that its parser yields. -/
theorem Html.Parser.YieldsRoot.exists_root {parse : Html.Parser} (h : parse.YieldsRoot) (s : String) :
    ∃ root, (Document.ofParsed (parse s)).root = some root := by
  obtain ⟨tag, attributes, children, hs⟩ := h s
  refine ⟨⟨.ofParsed (parse s), Document.empty.nextId⟩, ?_⟩
  have hroot : (Document.ofParsed (parse s)).root? = some Document.empty.nextId := by
    rw [hs, Document.root?_ofParsed]
  rw [Document.root, hroot, Option.map_some]

end PageAudit
