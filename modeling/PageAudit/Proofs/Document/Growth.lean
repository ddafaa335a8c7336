import PageAudit.Proofs.Document.Path

/-!
# Growing a document

What is seen of a document from its root (`View`: the elements, the text and the markup), and how it
changes when a node is added.

* `Extends d d' p new`: `d'` is `d` with the nodes `new` listed last by `p`. What is not above `p`
  keeps its preorder and its tree, and the preorder of `p` goes on with `new`.
* `Extends.grows`: at the end of a path from the root, the view grows by what is seen of `new`.
* `Extends.view_eq`: if no path leads to `p`, the view stays the same.
* `incremental`: the two for every document that steps can build, and what a new root leaves.
-/

namespace PageAudit

/-- What a rule sees of an element itself. -/
def Element.entry (e : Element) : NodeId × String × List Attribute :=
  (e.id, e.head)

/-- What is seen of a document from its root. -/
structure View where
  elements : List (NodeId × String × List Attribute)
  text? : Option String
  markup? : Option String

namespace Document

open Markup

def view (d : Document) : View where
  elements := d.elements.map Element.entry
  text? := d.root.map (·.textContent)
  markup? := d.root.map (·.outerHtml)

/-- The entries of the elements among some nodes. -/
def entries (d : Document) (ids : List NodeId) : List (NodeId × String × List Attribute) :=
  (ids.filter d.isElement).map fun id => (⟨d, id⟩ : Element).entry

/-- The texts of some nodes, joined. -/
def textOf (d : Document) (ids : List NodeId) : String :=
  String.join (ids.map d.textAt)

section
variable (d : Document)

@[simp] theorem entries_nil : d.entries [] = [] := rfl

@[simp] theorem entries_append (xs ys : List NodeId) :
    d.entries (xs ++ ys) = d.entries xs ++ d.entries ys := by
  simp [entries]

@[simp] theorem textOf_nil : d.textOf [] = "" := by
  simp [textOf]

@[simp] theorem textOf_append (xs ys : List NodeId) :
    d.textOf (xs ++ ys) = d.textOf xs ++ d.textOf ys := by
  simp [textOf]

theorem map_entry_descendants (id : NodeId) :
    (⟨d, id⟩ : Element).descendants.map Element.entry = d.entries (d.preorder id) := by
  simp [Element.descendants, entries]

theorem textContent_eq (id : NodeId) :
    (⟨d, id⟩ : Element).textContent = d.textOf (d.preorder id) := rfl

theorem map_id_elements {r : NodeId} (hr : d.root? = some r) :
    d.elements.map (·.id) = (d.preorder r).filter d.isElement := by
  simp [elements, root, hr, Element.descendants, Function.comp_def]

theorem view_of_root_none (hr : d.root? = none) : d.view = ⟨[], none, none⟩ := by
  simp [view, elements, root, hr]

theorem view_of_root {r : NodeId} (hr : d.root? = some r) : d.view =
    ⟨d.entries (d.preorder r), some (d.textOf (d.preorder r)),
      some (.ofList (d.tree r).markup)⟩ := by
  simp only [view, elements, root, hr, Option.map_some, Option.getD_some, map_entry_descendants,
    textContent_eq]
  rfl

end

/-- **The view of `d'` against `d`**, when `entries`, a text and markup are put at the end of what is
below `p`; the path leads there from the root. -/
structure Grows (d d' : Document) (path : List Frame) (p : NodeId)
    (entries : List (NodeId × String × List Attribute)) (text : String) (markup : List Char) :
    Prop where
  elements : d'.view.elements = d.entries (d.before path) ++
    (⟨d, p⟩ : Element).descendants.map Element.entry ++ entries ++ d.entries (d.after path)
  text : d'.view.text? = some (d.textOf (d.before path) ++ (⟨d, p⟩ : Element).textContent ++ text ++
    d.textOf (d.after path))
  shown : (∀ f ∈ path, ¬ d.Hides f.id) → ¬ d.Hides p →
    d'.view.markup? = some (.ofList (d.markupBefore path ++
      (d.opening p ++ d.markupOf (d.childrenOf p) ++ markup ++ d.closing p) ++ d.markupAfter path))
  hidden : (∃ f ∈ path, d.Hides f.id) ∨ d.Hides p → d'.view.markup? = d.view.markup?

/-! ## Nodes added at the end of a node -/

/-- `d'` is `d` with the nodes `new` listed last by `p`, and nothing else is changed. -/
structure Extends (d d' : Document) (p : NodeId) (new : List NodeId) : Prop where
  sound : d'.Sound
  root : d'.root? = d.root?
  kind : ∀ id : Nat, id < d.nodes.size → d'.kind? id = d.kind? id
  fresh : ∀ c : Nat, c ∈ new → d.nodes.size ≤ c
  children : d'.childrenOf p = d.childrenOf p ++ new
  children_of_ne : ∀ id, id ≠ p → d'.childrenOf id = d.childrenOf id

theorem Sound.extends_refl {d : Document} (h : d.Sound) (p : NodeId) : d.Extends d p [] where
  sound := h
  root := rfl
  kind := fun _ _ => rfl
  fresh := by simp
  children := by simp
  children_of_ne := fun _ _ => rfl

theorem Sound.extends_append {d : Document} (h : d.Sound) {p : NodeId}
    (hp : d.isElement p = true) {n : Node} (hn : n.children = #[]) :
    d.Extends (d.append p n) p [d.nextId] where
  sound := h.append hp hn
  root := root?_append
  kind := fun _ hid => kind?_append_of_lt hid
  fresh := by simp [nextId]
  children := by rw [childrenOf_append (lt_size_of_isElement hp) hn, if_pos rfl]
  children_of_ne := fun id hid => by
    rw [childrenOf_append (lt_size_of_isElement hp) hn, if_neg hid]

namespace Extends

variable {d d' : Document} {p : NodeId} {new : List NodeId} (hx : d.Extends d' p new)
include hx

theorem lt_size {id : Nat} (hid : id < d.nodes.size) : id < d'.nodes.size := by
  rw [lt_size_iff, hx.kind id hid]
  exact lt_size_iff.1 hid

theorem entries_eq {ids : List NodeId} (hids : ∀ id : Nat, id ∈ ids → id < d.nodes.size) :
    d'.entries ids = d.entries ids := by
  have hf : ids.filter d'.isElement = ids.filter d.isElement :=
    List.filter_congr fun id hm => isElement_congr (hx.kind id (hids id hm))
  rw [entries, entries, hf]
  refine List.map_congr_left fun id hm => ?_
  have hk := hx.kind id (hids id (List.mem_of_mem_filter hm))
  rw [Element.entry, Element.entry, head_congr hk]

theorem textOf_eq {ids : List NodeId} (hids : ∀ id : Nat, id ∈ ids → id < d.nodes.size) :
    d'.textOf ids = d.textOf ids := by
  refine congrArg String.join (List.map_congr_left fun id hm => ?_)
  rw [textAt_eq, textAt_eq, hx.kind id (hids id hm)]

theorem trans {d'' : Document} {new' : List NodeId} (hx' : d'.Extends d'' p new') :
    d.Extends d'' p (new ++ new') where
  sound := hx'.sound
  root := hx'.root.trans hx.root
  kind := fun id hid => (hx'.kind id (hx.lt_size hid)).trans (hx.kind id hid)
  fresh := fun c hc => by
    rcases List.mem_append.1 hc with hc | hc
    · exact hx.fresh c hc
    · exact Nat.le_of_not_lt fun hlt => Nat.not_lt.2 (hx'.fresh c hc) (hx.lt_size hlt)
  children := by rw [hx'.children, hx.children, List.append_assoc]
  children_of_ne := fun id hid => (hx'.children_of_ne id hid).trans (hx.children_of_ne id hid)

theorem above {a x : NodeId} (ha : d.Above a x) : d'.Above a x := by
  refine Relation.ReflTransGen.mono (fun b c hc => ?_) _ _ ha
  by_cases hb : b = p
  · rw [hb, hx.children]
    exact List.mem_append_left _ (hb ▸ hc)
  · rwa [hx.children_of_ne b hb]

/-- A node added has nothing below it yet. -/
theorem preorder_new (hp : p < d.nodes.size) {c : Nat} (hc : c ∈ new) : d'.preorder c = [c] := by
  have hcs : c < d'.nodes.size := hx.sound.child_lt_size p c (by simp [hx.children, hc])
  have hcp : c ≠ p := Nat.ne_of_gt (Nat.lt_of_lt_of_le hp (hx.fresh c hc))
  rw [hx.sound.preorder_eq hcs, hx.children_of_ne c hcp, childrenOf_eq_nil (hx.fresh c hc)]
  rfl

variable (h : d.Sound)
include h

/-! ## What is not above the node -/

theorem preorder_of_not_above {x : Nat} (hs : x < d.nodes.size) (hn : ¬ d.Above x p) :
    d'.preorder x = d.preorder x := by
  induction x using h.induction with
  | step x ih =>
    have hxp : x ≠ p := fun he => hn (he ▸ .refl)
    rw [hx.sound.preorder_eq (hx.lt_size hs), h.preorder_eq hs, hx.children_of_ne x hxp]
    refine congrArg (x :: ·) (List.flatMap_congr fun c hc => ?_)
    exact ih c hc (h.child_lt_size x c hc) fun ha => hn (.head hc ha)

theorem tree_of_not_above {x : Nat} (hs : x < d.nodes.size) (hn : ¬ d.Above x p) :
    d'.tree x = d.tree x := by
  induction x using h.induction with
  | step x ih =>
    have hxp : x ≠ p := fun he => hn (he ▸ .refl)
    obtain ⟨kind, hk⟩ := exists_kind_of_lt hs
    have hk' : d'.kind? x = some kind := by rw [hx.kind x hs, hk]
    cases kind with
    | text content => rw [Sound.tree_text hk, Sound.tree_text hk']
    | element tag attributes =>
      rw [h.tree_element hk, hx.sound.tree_element hk', hx.children_of_ne x hxp]
      refine congrArg (Tree.element tag attributes) (List.map_congr_left fun c hc => ?_)
      exact ih c hc (h.child_lt_size x c hc) fun ha => hn (.head hc ha)

/-! ## The node itself -/

theorem preorder_end (hp : p < d.nodes.size) : d'.preorder p = d.preorder p ++ new := by
  have hold : (d.childrenOf p).flatMap d'.preorder = (d.childrenOf p).flatMap d.preorder :=
    List.flatMap_congr fun c hc =>
      hx.preorder_of_not_above h (h.child_lt_size p c hc) (h.not_above_of_child hc)
  have hnew : new.flatMap d'.preorder = new.flatMap fun c => [c] :=
    List.flatMap_congr fun c hc => hx.preorder_new hp hc
  rw [hx.sound.preorder_eq (hx.lt_size hp), h.preorder_eq hp, hx.children, List.flatMap_append,
    hold, hnew, List.flatMap_singleton', List.cons_append]

theorem markupOf_children : d'.markupOf (d'.childrenOf p) =
    d.markupOf (d.childrenOf p) ++ d'.markupOf new := by
  rw [hx.children, markupOf_append, markupOf_congr fun c hc => ?_]
  exact hx.tree_of_not_above h (h.child_lt_size p c hc) (h.not_above_of_child hc)

/-! ## What is seen from the root -/

theorem agreeAt {a : Nat} {path : List Frame} (ha : a < d.nodes.size) (hp : d.Path a path p) :
    ∀ f ∈ path, d.AgreeAt d' f := by
  induction hp with
  | here => simp
  | @down a c p earlier later path hc hcp ih =>
    have hca : c ∈ d.childrenOf a := by simp [hc]
    have hne : a ≠ p := fun he => h.not_above_of_child hca (he ▸ hcp.above)
    have beside : ∀ s, s ∈ earlier ∨ s ∈ later → s < d.nodes.size ∧ ¬ d.Above s p := fun s hs =>
      ⟨h.child_lt_size a s (by simpa [hc] using hs.imp_right .inr),
        h.not_above_of_beside hc hcp.above hs⟩
    refine List.forall_mem_cons.2 ⟨⟨hx.kind a ha, hx.children_of_ne a hne, fun s hs => ?_,
      fun s hs => ?_⟩, ih hx (h.child_lt_size a c hca)⟩
    · exact hx.preorder_of_not_above h (beside s hs).1 (beside s hs).2
    · exact hx.tree_of_not_above h (beside s hs).1 (beside s hs).2

/-- **At the end of a path from the root the view grows** by what is seen of the nodes added. -/
theorem grows {r : Nat} {path : List Frame} (hr : d.root? = some r) (hp : d.Path r path p)
    (hpe : d.isElement p = true) :
    Grows d d' path p (d'.entries new) (d'.textOf new) (d'.markupOf new) := by
  have hrs : r < d.nodes.size := lt_size_of_isElement (h.root r hr)
  have hps : p < d.nodes.size := lt_size_of_isElement hpe
  have hr' : d'.root? = some r := hx.root.trans hr
  have hs := hx.agreeAt h hrs hp
  have hp' : d'.Path r path p := hp.congr hs
  have hk : d'.kind? p = d.kind? p := hx.kind p hps
  have hpe' : d'.isElement p = true := by rw [isElement_congr hk, hpe]
  have hold : d.preorder r = d.before path ++ d.preorder p ++ d.after path :=
    h.preorder_path hp hrs
  have hnew : d'.preorder r = d.before path ++ (d.preorder p ++ new) ++ d.after path := by
    rw [hx.sound.preorder_path hp' (hx.lt_size hrs), before_congr hs, after_congr hs,
      hx.preorder_end h hps]
  have inside : ∀ x : Nat, x ∈ d.before path ++ d.preorder p ++ d.after path →
      x < d.nodes.size := fun x hm => h.lt_size_of_mem_preorder hrs (hold ▸ hm)
  simp only [List.mem_append] at inside
  have hb : ∀ x : Nat, x ∈ d.before path → x < d.nodes.size := fun x hm => inside x (.inl (.inl hm))
  have hi : ∀ x : Nat, x ∈ d.preorder p → x < d.nodes.size := fun x hm => inside x (.inl (.inr hm))
  have ha : ∀ x : Nat, x ∈ d.after path → x < d.nodes.size := fun x hm => inside x (.inr hm)
  refine ⟨?_, ?_, fun hv hvp => ?_, fun hv => ?_⟩
  · rw [d'.view_of_root hr', hnew, map_entry_descendants]
    simp [hx.entries_eq hb, hx.entries_eq hi, hx.entries_eq ha]
  · rw [d'.view_of_root hr', hnew, textContent_eq]
    simp [hx.textOf_eq hb, hx.textOf_eq hi, hx.textOf_eq ha, String.append_assoc]
  · have hv' : ∀ f ∈ path, ¬ d'.Hides f.id := fun f hf hfv =>
      hv f hf ((hides_congr (hs f hf).kind).1 hfv)
    have hvp' : ¬ d'.Hides p := fun hvp' => hvp ((hides_congr hk).1 hvp')
    rw [d'.view_of_root hr', hx.sound.markup_path hp' hv', hx.sound.markup_of_not_hides hpe' hvp',
      hx.markupOf_children h, markupBefore_congr hs, markupAfter_congr hs, opening_congr hk,
      closing_congr hk]
    simp only [List.append_assoc]
  · rw [d.view_of_root hr, d'.view_of_root hr']
    have hm : (d'.tree r).markup = (d.tree r).markup := by
      refine h.markup_congr hx.sound hp hs (hv.imp_right fun hvp => ?_)
      rw [h.markup_of_hides hpe hvp, hx.sound.markup_of_hides hpe' ((hides_congr hk).2 hvp),
        opening_congr hk]
    rw [hm]

/-- **What is not below the root is not seen.** -/
theorem view_eq (hn : ∀ r, d.root? = some r → ¬ d.Above r p) : d'.view = d.view := by
  cases hr : d.root? with
  | none =>
    rw [d.view_of_root_none hr, d'.view_of_root_none (hx.root.trans hr)]
  | some r =>
    have hrs : r < d.nodes.size := lt_size_of_isElement (h.root r hr)
    have inside : ∀ x : Nat, x ∈ d.preorder r → x < d.nodes.size := fun x hm =>
      h.lt_size_of_mem_preorder hrs hm
    rw [d.view_of_root hr, d'.view_of_root (hx.root.trans hr),
      hx.preorder_of_not_above h hrs (hn r hr), hx.tree_of_not_above h hrs (hn r hr),
      hx.entries_eq inside, hx.textOf_eq inside]

end Extends

/-! ## A new element -/

section
variable (d : Document) (p : NodeId) (tag : String) (attributes : List Attribute)

theorem kind?_nextId_append : (d.append p (.element tag attributes)).kind? d.nextId =
    some (.element (Text.lower tag) (Attribute.distinct attributes)) := by
  rw [kind?_append, if_pos rfl]
  rfl

theorem isElement_nextId_append :
    (d.append p (.element tag attributes)).isElement d.nextId = true :=
  isElement_iff.2 ⟨_, _, kind?_nextId_append d p tag attributes⟩

theorem entries_nextId_append : (d.append p (.element tag attributes)).entries [d.nextId] =
    [(d.nextId, Text.lower tag, Attribute.distinct attributes)] := by
  simp [entries, isElement_nextId_append, Element.entry, head_eq, kind?_nextId_append]

end

namespace Sound

variable {d : Document} (h : d.Sound) {r p : NodeId} {path : List Frame} (hr : d.root? = some r)
  (hp : d.Path r path p) (hpe : d.isElement p = true)
include h hr

theorem mem_elements_iff {x : NodeId} :
    x ∈ d.elements.map (·.id) ↔ d.Above r x ∧ d.isElement x = true := by
  rw [d.map_id_elements hr, List.mem_filter, h.mem_preorder (lt_size_of_isElement (h.root r hr))]

include hp hpe

theorem grows_refl : Grows d d path p [] "" [] := by
  have hg := (h.extends_refl p).grows h hr hp hpe
  rwa [entries_nil, textOf_nil] at hg

theorem grows_appendElement (tag : String) (attributes : List Attribute) :
    Grows d (d.appendElement p tag attributes) path p
      [(d.nextId, Text.lower tag, Attribute.distinct attributes)] ""
      (Tree.element (Text.lower tag) (Attribute.distinct attributes) []).markup := by
  have hx := h.extends_append hpe (n := .element tag attributes) rfl
  have hg := hx.grows h hr hp hpe
  have hk := kind?_nextId_append d p tag attributes
  have hc : (d.append p (.element tag attributes)).childrenOf d.nextId = [] := by
    rw [hx.children_of_ne d.nextId (Nat.ne_of_gt (lt_size_of_isElement hpe))]
    exact childrenOf_eq_nil (Nat.le_refl _)
  have htext : (d.append p (.element tag attributes)).textOf [d.nextId] = "" := by
    simp [textOf, textAt_eq, hk]
  have hmarkup : (d.append p (.element tag attributes)).markupOf [d.nextId] =
      (Tree.element (Text.lower tag) (Attribute.distinct attributes) []).markup := by
    rw [markupOf_cons, hx.sound.tree_element hk, hc]
    exact List.append_nil _
  rw [appendElement_eq]
  rwa [entries_nextId_append, htext, hmarkup] at hg

theorem grows_appendText (content : String) :
    Grows d (d.appendText p content) path p [] content (Markup.text content) := by
  have hg := (h.extends_append hpe (n := .text content) rfl).grows h hr hp hpe
  have hk : (d.append p (.text content)).kind? d.nextId = some (.text content) := by
    rw [kind?_append, if_pos rfl]
    rfl
  have he : (d.append p (.text content)).isElement d.nextId = false := isElement_of_text hk
  have hentries : (d.append p (.text content)).entries [d.nextId] = [] := by
    simp [entries, he]
  have htext : (d.append p (.text content)).textOf [d.nextId] = content := by
    simp [textOf, textAt_eq, hk]
  have hmarkup : (d.append p (.text content)).markupOf [d.nextId] = Markup.text content := by
    rw [markupOf_cons, tree_text hk, Tree.markup]
    exact List.append_nil _
  rw [appendText_eq]
  rwa [hentries, htext, hmarkup] at hg

end Sound

/-! ## A new root -/

theorem childrenOf_nextId_createRoot (d : Document) (tag : String) (attributes : List Attribute) :
    (d.createRoot tag attributes).childrenOf d.nextId = [] := by
  rw [childrenOf_createRoot]
  exact childrenOf_eq_nil (Nat.le_refl _)

theorem Sound.tree_createRoot {d : Document} (h : d.Sound) (tag : String)
    (attributes : List Attribute) : (d.createRoot tag attributes).tree d.nextId =
      .element (Text.lower tag) (Attribute.distinct attributes) [] := by
  have hk := kind?_createRoot d tag attributes d.nextId
  rw [if_pos rfl] at hk
  rw [(h.createRoot tag attributes).tree_element hk, childrenOf_nextId_createRoot]
  rfl

/-- **A new root is all that is seen**, whatever was there before. -/
theorem Sound.view_createRoot {d : Document} (h : d.Sound) (tag : String)
    (attributes : List Attribute) : (d.createRoot tag attributes).view =
      ⟨[(d.nextId, Text.lower tag, Attribute.distinct attributes)], some "",
        some (.ofList (Tree.element (Text.lower tag) (Attribute.distinct attributes) []).markup)⟩ := by
  have hk := kind?_createRoot d tag attributes d.nextId
  rw [if_pos rfl] at hk
  have he := isElement_nextId_createRoot d tag attributes
  have hp : (d.createRoot tag attributes).preorder d.nextId = [d.nextId] := by
    rw [(h.createRoot tag attributes).preorder_eq (lt_size_of_isElement he),
      childrenOf_nextId_createRoot]
    rfl
  rw [view_of_root _ (r := d.nextId) rfl, hp, h.tree_createRoot tag attributes]
  simp [entries, textOf, he, Element.entry, head_eq, textAt_eq, hk, Node.element]

/-! ## Every document that steps build -/

/-- **How the view changes with every way to add a node**, `handles` being the elements that can be
appended to. -/
structure Incremental (d : Document) (handles : List NodeId) : Prop where
  tree_createRoot : ∀ tag attributes, (d.createRoot tag attributes).rootTree? =
    some (.element (Text.lower tag) (Attribute.distinct attributes) [])
  createRoot : ∀ tag attributes, (d.createRoot tag attributes).view =
    ⟨[(d.nextId, Text.lower tag, Attribute.distinct attributes)], some "",
      some (.ofList (Tree.element (Text.lower tag) (Attribute.distinct attributes) []).markup)⟩
  attached : ∀ r p, d.root? = some r → p ∈ handles → p ∈ d.elements.map (·.id) →
    ∃ path, d.Path r path p ∧ Grows d d path p [] "" [] ∧
      (∀ tag attributes, Grows d (d.appendElement p tag attributes) path p
        [(d.nextId, Text.lower tag, Attribute.distinct attributes)] ""
        (Tree.element (Text.lower tag) (Attribute.distinct attributes) []).markup) ∧
      ∀ content, Grows d (d.appendText p content) path p [] content (Markup.text content)
  detached : ∀ p ∈ handles, p ∉ d.elements.map (·.id) →
    (∀ tag attributes, (d.appendElement p tag attributes).view = d.view) ∧
      ∀ content, (d.appendText p content).view = d.view

/-- **The incremental law**: whatever steps have built a document, its view changes with the next node
at the place of the node, and only if that is below the root. -/
theorem incremental (steps : List BuildStep) :
    Incremental (ofSteps steps) (Build.run steps).handles := by
  obtain ⟨h, hhandles⟩ := Build.ok_run steps
  change (ofSteps steps).Sound at h
  refine ⟨fun tag attributes => ?_, h.view_createRoot, fun r p hr hp hm => ?_, fun p hp hm => ?_⟩
  · exact congrArg some (h.tree_createRoot tag attributes)
  · obtain ⟨ha, hpe⟩ := (h.mem_elements_iff hr).1 hm
    obtain ⟨path, hpath⟩ := exists_path ha
    exact ⟨path, hpath, h.grows_refl hr hpath hpe, h.grows_appendElement hr hpath hpe,
      h.grows_appendText hr hpath hpe⟩
  · have hpe : (ofSteps steps).isElement p = true := hhandles p hp
    have hn : ∀ r, (ofSteps steps).root? = some r → ¬ (ofSteps steps).Above r p := fun r hr ha =>
      hm ((h.mem_elements_iff hr).2 ⟨ha, hpe⟩)
    exact ⟨fun tag attributes => (h.extends_append hpe rfl).view_eq h hn,
      fun content => (h.extends_append hpe rfl).view_eq h hn⟩

/-- A paragraph with a line break, then a list with two items as a new root. -/
def replacedRoot : List BuildStep :=
  [.root "p" [], .element 0 "br" [], .root "ul" [], .element 2 "li" [], .element 2 "li" []]

/-- A text in the first item is seen at its place, a text in the paragraph is not. -/
theorem incremental_replacedRoot :
    (∃ path, (ofSteps replacedRoot).Path 2 path 3 ∧ Grows (ofSteps replacedRoot)
      ((ofSteps replacedRoot).appendText 3 "a < b") path 3 [] "a < b" (Markup.text "a < b")) ∧
    ((ofSteps replacedRoot).appendText 0 "a < b").view = (ofSteps replacedRoot).view := by
  have hi := incremental replacedRoot
  obtain ⟨path, hp, -, -, hg⟩ := hi.attached 2 3 rfl (by decide) (by decide)
  exact ⟨⟨path, hp, hg "a < b"⟩, (hi.detached 0 (by decide) (by decide)).2 "a < b"⟩

end Document

end PageAudit
