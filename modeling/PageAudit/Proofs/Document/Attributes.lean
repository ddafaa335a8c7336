import PageAudit.Auditor
import PageAudit.Proofs.Document.Stored
import PageAudit.Proofs.Text.LetterCase
import Mathlib.Data.List.Induction

/-!
# Attributes of an element

An element keeps of its written attributes the first of each name, and names are the same whatever
their letter case.

* `Attribute.distinct_eq`: what is kept are the first ones (`Attribute.firsts`), in their order, with
  their names in lower case.
* `Element.attr?_of_written`: what an element answers for a name is the value of the first written
  attribute that has this name in any case.
* `Build.Keeps`: no later step changes what an element is.
* `Build.run_recased`: steps that differ in the case of tags and names only build one document.
* `Document.attributes_of_written`: all of this for every element that steps create.
-/

namespace PageAudit

namespace Attribute

/-- The attributes of a written list that come before all others of the same name. -/
def firsts (written : List Attribute) : List Attribute :=
  (written.zipIdx.filter fun (a, i) =>
    ∀ b ∈ written.take i, ¬ Text.Recased b.name a.name).map (·.1)

/-- The form in which an attribute is stored. -/
def stored (a : Attribute) : Attribute := ⟨Text.lower a.name, a.value⟩

section
variable {written : List Attribute} {a : Attribute} {name : String}

/-- One more attribute is a first one if none of the same name was written before. -/
theorem firsts_append (written : List Attribute) (a : Attribute) : firsts (written ++ [a]) =
    firsts written ++ if ∃ b ∈ written, Text.Recased b.name a.name then [] else [a] := by
  have before : ∀ x ∈ written.zipIdx,
      decide (∀ b ∈ (written ++ [a]).take x.2, ¬ Text.Recased b.name x.1.name) =
        decide (∀ b ∈ written.take x.2, ¬ Text.Recased b.name x.1.name) := by
    rintro ⟨x, i⟩ hx
    have hi := (List.getElem?_eq_some_iff.1 (List.mem_zipIdx_iff_getElem?.1 hx)).1
    rw [List.take_append_of_le_length (Nat.le_of_lt hi)]
  have last : (written ++ [a]).take written.length = written := by simp
  rw [firsts, List.zipIdx_append, List.filter_append, List.map_append, firsts,
    List.filter_congr before]
  refine congrArg _ ?_
  rw [Nat.zero_add, List.zipIdx_singleton, List.filter_singleton]
  dsimp only
  rw [last]
  by_cases h : ∃ b ∈ written, Text.Recased b.name a.name
  · have repeated : decide (∀ b ∈ written, ¬ Text.Recased b.name a.name) = false := by simpa using h
    rw [if_pos h, repeated]
    rfl
  · have fresh : decide (∀ b ∈ written, ¬ Text.Recased b.name a.name) = true := by simpa using h
    rw [if_neg h, fresh]
    rfl

/-- A search by name ends at a first one. -/
theorem find?_firsts (written : List Attribute) (name : String) :
    (firsts written).find? (fun a => Text.Recased a.name name) =
      written.find? fun a => Text.Recased a.name name := by
  induction written using List.reverseRecOn with
  | nil => rfl
  | append_singleton written a ih =>
    rw [firsts_append, List.find?_append, ih, List.find?_append]
    split
    case isFalse => rfl
    case isTrue h =>
      obtain ⟨b, hb, hba⟩ := h
      cases found : written.find? fun a => Text.Recased a.name name with
      | some c => rfl
      | none =>
        -- `a` has the name of an attribute that was passed over.
        have passed : ¬ Text.Recased b.name name := by
          simpa using List.find?_eq_none.1 found b hb
        have hn : ¬ Text.Recased a.name name := fun ha => by
          rw [Text.recased_iff] at hba ha passed
          exact passed (hba.trans ha)
        simp [hn]

theorem any_stored_iff : ((firsts written).map stored).any (·.name == Text.lower a.name) = true ↔
    ∃ b ∈ written, Text.Recased b.name a.name := by
  have same := congrArg Option.isSome (find?_firsts written a.name)
  rw [Bool.eq_iff_iff, List.find?_isSome, List.find?_isSome] at same
  simpa [stored, Text.recased_iff] using same

/-- **What is kept of the written attributes** are the first ones, with their names in lower case. -/
theorem distinct_eq (written : List Attribute) : distinct written = (firsts written).map stored := by
  induction written using List.reverseRecOn with
  | nil => rfl
  | append_singleton written a ih =>
    have step : distinct (written ++ [a]) = keep (distinct written) a :=
      List.foldl_append
    rw [step, ih, keep, firsts_append, List.map_append]
    by_cases h : ∃ b ∈ written, Text.Recased b.name a.name
    · rw [if_pos (any_stored_iff.2 h), if_pos h, List.map_nil, List.append_nil]
    · rw [if_neg (any_stored_iff.not.2 h), if_neg h]
      rfl

/-- An attribute is found by its name in any case. -/
theorem find?_distinct (written : List Attribute) (name : String) :
    (distinct written).find? (fun a => Text.sameName a.name name) =
      (written.find? fun a => Text.Recased a.name name).map stored := by
  have same : (fun a => Text.sameName a.name name) ∘ stored =
      fun a => decide (Text.Recased a.name name) := by
    funext a
    rw [Bool.eq_iff_iff, Function.comp_apply, Text.sameName_iff, decide_eq_true_eq, stored,
      Text.recased_iff, Text.recased_iff, Text.lower_lower]
  rw [distinct_eq, List.find?_map, same, find?_firsts]

end

/-- The same attribute, but for the case of its name. -/
structure Recased (a b : Attribute) : Prop where
  name : Text.Recased a.name b.name
  value : a.value = b.value

theorem Recased.stored_eq {a b : Attribute} (h : Recased a b) : stored a = stored b := by
  rw [stored, stored, Text.recased_iff.1 h.name, h.value]

theorem distinct_recased {written written' : List Attribute}
    (h : List.Forall₂ Recased written written') : distinct written = distinct written' := by
  have kept : ∀ acc, written.foldl keep acc = written'.foldl keep acc := by
    induction h with
    | nil => exact fun _ => rfl
    | @cons a b _ _ hab _ ih =>
      intro acc
      have same : keep acc a = keep acc b := by
        have hs := hab.stored_eq
        rw [stored, stored, Attribute.mk.injEq] at hs
        rw [keep, keep, hs.1, hs.2]
      rw [List.foldl_cons, List.foldl_cons, same, ih]
  exact kept []

end Attribute

/-! ## Elements -/

/-- An element answers for a name with the value that was written first under this name. -/
theorem Element.attr?_of_written {e : Element} {written : List Attribute}
    (h : e.attributes = Attribute.distinct written) (name : String) :
    e.attr? name = (written.find? fun a => Text.Recased a.name name).map (·.value) := by
  rw [attr?, h, Attribute.find?_distinct, Option.map_map]
  rfl

theorem Element.hasAttr_of_written {e : Element} {written : List Attribute}
    (h : e.attributes = Attribute.distinct written) (name : String) :
    e.hasAttr name = true ↔ ∃ a ∈ written, Text.Recased a.name name := by
  rw [hasAttr, attr?_of_written h, Option.isSome_map, List.find?_isSome]
  simp

theorem Node.element_recased {tag tag' : String} {written written' : List Attribute}
    (ht : Text.Recased tag tag') (hw : List.Forall₂ Attribute.Recased written written') :
    Node.element tag written = Node.element tag' written' := by
  rw [Node.element, Node.element, Text.recased_iff.1 ht, Attribute.distinct_recased hw]

/-! ## Runs -/

/-- The same step, but for the case of the tag and of the names of attributes. -/
inductive BuildStep.Recased : BuildStep → BuildStep → Prop
  | root {tag tag' : String} {written written' : List Attribute} : Text.Recased tag tag' →
    List.Forall₂ Attribute.Recased written written' → Recased (.root tag written) (.root tag' written')
  | element (parent : Nat) {tag tag' : String} {written written' : List Attribute} :
    Text.Recased tag tag' → List.Forall₂ Attribute.Recased written written' →
    Recased (.element parent tag written) (.element parent tag' written')
  | text (parent : Nat) (content : String) : Recased (.text parent content) (.text parent content)

namespace Build

open Document

theorem step_recased {s s' : BuildStep} (h : s.Recased s') (b : Build) : b.step s = b.step s' := by
  cases h with
  | root ht hw => simp only [step, createRoot, Node.element_recased ht hw]
  | element parent ht hw => simp only [step, appendElement, Node.element_recased ht hw]
  | text => rfl

/-- **Letter case does not matter** to a run. -/
theorem run_recased {steps steps' : List BuildStep} (h : List.Forall₂ BuildStep.Recased steps steps') :
    run steps = run steps' := by
  have kept : ∀ b, steps.foldl step b = steps'.foldl step b := by
    induction h with
    | nil => exact fun _ => rfl
    | cons hs _ ih =>
      intro b
      rw [List.foldl_cons, List.foldl_cons, step_recased hs, ih]
  exact kept {}

/-- What was there stays: handles name the same nodes, and nodes are what they were. -/
structure Keeps (b b' : Build) : Prop where
  handles : b.handles <+: b'.handles
  size : b.document.nodes.size ≤ b'.document.nodes.size
  kinds : ∀ id < b.document.nodes.size, b'.document.kind? id = b.document.kind? id

theorem keeps_step (b : Build) (s : BuildStep) : b.Keeps (b.step s) := by
  have handles : b.handles <+: (b.step s).handles := by
    cases s with
    | root => exact List.prefix_append _ _
    | element =>
      rw [step]
      split
      · exact List.prefix_append _ _
      · exact List.prefix_rfl
    | text =>
      rw [step]
      split
      · exact List.prefix_rfl
      · exact List.prefix_rfl
  rcases b.document_step s with hs | ⟨tag, attributes, hs⟩ | ⟨p, -, n, -, hs⟩
  · exact ⟨handles, by rw [hs], fun id _ => by rw [hs]⟩
  · refine ⟨handles, by simp [hs, createRoot], fun id hid => ?_⟩
    rw [hs, kind?_createRoot, if_neg (show id ≠ b.document.nextId from Nat.ne_of_lt hid)]
  · refine ⟨handles, by simp [hs], fun id hid => ?_⟩
    rw [hs, kind?_append_of_lt hid]

theorem Keeps.trans {b b' b'' : Build} (h : b.Keeps b') (h' : b'.Keeps b'') : b.Keeps b'' where
  handles := h.handles.trans h'.handles
  size := Nat.le_trans h.size h'.size
  kinds id hid := (h'.kinds id (Nat.lt_of_lt_of_le hid h.size)).trans (h.kinds id hid)

theorem keeps_foldl (steps : List BuildStep) (b : Build) : b.Keeps (steps.foldl step b) := by
  induction steps generalizing b with
  | nil => exact ⟨List.prefix_rfl, Nat.le_refl _, fun _ _ => rfl⟩
  | cons s steps ih => exact (b.keeps_step s).trans (ih (b.step s))

/-- The step creates an element from this tag and these attributes. -/
inductive Creates (b : Build) : BuildStep → String → List Attribute → Prop
  | root (tag : String) (written : List Attribute) : Creates b (.root tag written) tag written
  | element {parent : Nat} {id : NodeId} (tag : String) (written : List Attribute) :
    b.handles[parent]? = some id → Creates b (.element parent tag written) tag written

/-- The element that a step creates gets the next handle and the next number. -/
theorem Creates.step {b : Build} {s : BuildStep} {tag : String} {written : List Attribute}
    (h : b.Creates s tag written) : (b.step s).handles = b.handles ++ [b.document.nextId] ∧
      (b.step s).document.kind? b.document.nextId = some (Node.element tag written).kind := by
  cases h with
  | root => exact ⟨rfl, (kind?_createRoot ..).trans (if_pos rfl)⟩
  | @element parent id _ _ hparent =>
    rw [Build.step, hparent]
    exact ⟨rfl, (kind?_append _).trans (if_pos rfl)⟩

/-- Whatever follows, the handle names an element with the tag and the attributes that are kept of
those written. -/
theorem Creates.run {before : List BuildStep} {s : BuildStep} {tag : String}
    {written : List Attribute} (h : (run before).Creates s tag written) (after : List BuildStep) :
    ∃ e : Element, e.document = .ofSteps (before ++ s :: after) ∧
      (Build.run (before ++ s :: after)).handles[(Build.run before).handles.length]? = some e.id ∧
      e.head = (Text.lower tag, Attribute.distinct written) := by
  obtain ⟨handles, created⟩ := h.step
  have whole : Build.run (before ++ s :: after) = after.foldl Build.step ((Build.run before).step s) := by
    simp [Build.run]
  have keeps := keeps_foldl after ((Build.run before).step s)
  rw [← whole] at keeps
  refine ⟨⟨.ofSteps (before ++ s :: after), (Build.run before).document.nextId⟩, rfl, ?_, ?_⟩
  · obtain ⟨later, hlater⟩ := keeps.handles
    rw [← hlater, handles]
    simp
  · rw [head_eq, ofSteps, keeps.kinds _ (lt_size_iff.2 (by rw [created]; rfl)), created]
    rfl

end Build

namespace Document

/-- **Attributes are a map whose first entries win.** Wherever steps create an element and whatever
follows: it has the written tag in lower case, and of the written attributes the first of each name, in
their order, each with its value and its name in lower case. For any name, in any case, it answers with
the value that was written first under that name. So steps that differ in the case of tags and names
only build one document, and every auditor gives one report on it. -/
theorem attributes_of_written :
    (∀ (before : List BuildStep) (s : BuildStep) (after : List BuildStep) (tag : String)
      (written : List Attribute), (Build.run before).Creates s tag written →
      ∃ e : Element, e.document = .ofSteps (before ++ s :: after) ∧
        (Build.run (before ++ s :: after)).handles[(Build.run before).handles.length]? = some e.id ∧
        e.tag = Text.lower tag ∧
        e.attributes = (Attribute.firsts written).map Attribute.stored ∧
        (∀ name, e.attr? name =
          (written.find? fun a => Text.Recased a.name name).map (·.value)) ∧
        ∀ name, e.hasAttr name = true ↔ ∃ a ∈ written, Text.Recased a.name name) ∧
    ∀ steps steps', List.Forall₂ BuildStep.Recased steps steps' →
      ofSteps steps = ofSteps steps' ∧
      ∀ (a : Auditor) (source : String) (time : Timestamp),
        a.evaluate (ofSteps steps) source time = a.evaluate (ofSteps steps') source time := by
  refine ⟨fun before s after tag written created => ?_, fun steps steps' recased => ?_⟩
  · obtain ⟨e, document, handle, head⟩ := created.run after
    have attributes : e.attributes = Attribute.distinct written := congrArg Prod.snd head
    exact ⟨e, document, handle, congrArg Prod.fst head, attributes.trans (Attribute.distinct_eq written),
      Element.attr?_of_written attributes, Element.hasAttr_of_written attributes⟩
  · have same : ofSteps steps = ofSteps steps' := congrArg Build.document (Build.run_recased recased)
    exact ⟨same, fun a source time => by rw [same]⟩

/-- Attributes with one name in two cases, and with two letters that are not A to Z. -/
def twoCases : List Attribute := [⟨"ID", "a"⟩, ⟨"Ü", "b"⟩, ⟨"Id", "c"⟩, ⟨"ü", "d"⟩]

/-- The second value of the one name is lost, and the other names are two. -/
theorem attributes_of_written_twoCases :
    (∃ e : Element, e.document = .ofSteps [.root "html" [], .element 0 "P" twoCases, .text 1 "One"] ∧
      e.tag = "p" ∧ e.attributes = [⟨"id", "a"⟩, ⟨"Ü", "b"⟩, ⟨"ü", "d"⟩] ∧
      e.attr? "iD" = some "a" ∧ e.attr? "ü" = some "d") ∧
    ofSteps [.root "HTML" [⟨"LANG", "En"⟩]] = ofSteps [.root "html" [⟨"lang", "En"⟩]] := by
  obtain ⟨elements, recased⟩ := attributes_of_written
  refine ⟨?_, (recased _ _ (.cons (.root (by decide) (.cons ⟨by decide, rfl⟩ .nil)) .nil)).1⟩
  obtain ⟨e, document, -, tag, attributes, value, -⟩ := elements [.root "html" []]
    (.element 0 "P" twoCases) [.text 1 "One"] "P" twoCases (.element "P" twoCases rfl)
  refine ⟨e, document, tag.trans (by decide), attributes.trans (by decide), ?_, ?_⟩
  · rw [value]
    decide
  · rw [value]
    decide

end Document

end PageAudit
