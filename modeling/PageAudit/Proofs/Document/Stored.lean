import PageAudit.Proofs.Document.Arena
import PageAudit.Proofs.Text.Pieces
import Mathlib.Data.List.Nodup

/-!
# What a document stores

Beside the shape of the store (`Document.Sound`), what its lists and names keep to, however the
document is built.

* `Sound.nodup_listed`: of all children of all nodes none is there twice.
* `Build.root_notMem_listed`: what was once created as a root is never a child, not of later nodes
  either and not after another root has replaced it.
* `Build.named_run`: tags and names of attributes have no letter A to Z, and no element has two
  attributes of one name.

Each is kept by every step, and a step adds at most one node (`Build.document_step`).
-/

namespace PageAudit

/-! ## Names -/

/-- No letter A to Z. -/
def Text.IsLower (s : String) : Prop :=
  ∀ c ∈ s.toList, c.isUpper = false

theorem Text.isLower_lower (s : String) : IsLower (lower s) := by
  intro c hc
  rw [lower, String.toList_ofList] at hc
  obtain ⟨x, -, rfl⟩ := List.mem_map.1 hc
  exact isUpper_eq_false_iff.2 (toLower_toLower x)

/-- A tag and names of attributes without A to Z, the attributes of different names. -/
structure ProperNames (tag : String) (attributes : List Attribute) : Prop where
  tag : Text.IsLower tag
  names : ∀ a ∈ attributes, Text.IsLower a.name
  distinct : (attributes.map (·.name)).Nodup

namespace Attribute

/-- What `distinct` does with one more attribute of the written list. -/
def keep (kept : List Attribute) (a : Attribute) : List Attribute :=
  if kept.any (·.name == Text.lower a.name) then kept else kept ++ [⟨Text.lower a.name, a.value⟩]

theorem properNames_keep {tag : String} {kept : List Attribute} (h : ProperNames tag kept)
    (a : Attribute) : ProperNames tag (keep kept a) := by
  unfold keep
  split
  case isTrue => exact h
  case isFalse hn =>
    have fresh : ∀ b ∈ kept, b.name ≠ Text.lower a.name := by simpa using hn
    refine ⟨h.tag, fun b hb => ?_, ?_⟩
    · rcases List.mem_append.1 hb with hb | hb
      · exact h.names b hb
      · rw [List.mem_singleton.1 hb]
        exact Text.isLower_lower _
    · rw [List.map_append, List.nodup_append]
      refine ⟨h.distinct, by simp, fun x hx y hy => ?_⟩
      obtain ⟨b, hb, rfl⟩ := List.mem_map.1 hx
      rw [List.mem_singleton.1 hy]
      exact fresh b hb

theorem properNames_distinct (tag : String) (attributes : List Attribute) :
    ProperNames (Text.lower tag) (distinct attributes) :=
  List.foldlRecOn (motive := ProperNames (Text.lower tag)) attributes keep
    ⟨Text.isLower_lower tag, by simp, by simp⟩ fun _ h a _ => properNames_keep h a

end Attribute

/-- A node as it is added. -/
inductive Node.New : Node → Prop
  | element (tag : String) (attributes : List Attribute) : New (.element tag attributes)
  | text (content : String) : New (.text content)

theorem Node.New.children {n : Node} (h : n.New) : n.children = #[] := by
  cases h <;> rfl

theorem Node.New.properNames {n : Node} (h : n.New) {tag : String} {attributes : List Attribute}
    (hk : n.kind = .element tag attributes) : ProperNames tag attributes := by
  cases h with
  | element written given =>
    cases hk
    exact Attribute.properNames_distinct written given
  | text content => cases hk

namespace Document

/-- Every element has proper names. -/
def Named (d : Document) : Prop :=
  ∀ id tag attributes, d.kind? id = some (.element tag attributes) → ProperNames tag attributes

/-- The names are kept when a new node gets the next number. -/
theorem Named.add {d d' : Document} (h : d.Named) {n : Node} (hn : n.New)
    (hk : ∀ id, d'.kind? id = if id = d.nextId then some n.kind else d.kind? id) : d'.Named := by
  intro id tag attributes hid
  rw [hk] at hid
  split at hid
  · exact hn.properNames (Option.some.inj hid)
  · exact h id tag attributes hid

/-! ## Lists -/

/-- The children of all nodes, list after list. -/
def listed (d : Document) : List NodeId :=
  d.nodes.toList.flatMap (·.children.toList)

theorem listed_eq (d : Document) : d.listed = (List.range d.nodes.size).flatMap d.childrenOf := by
  rw [listed, List.flatMap_def, List.flatMap_def]
  refine congrArg List.flatten (List.ext_getElem (by simp) fun i h _ => ?_)
  have hi : i < d.nodes.size := by simpa using h
  simp [childrenOf, hi]

theorem mem_listed {d : Document} {x : NodeId} : x ∈ d.listed ↔ ∃ a, x ∈ d.childrenOf a := by
  rw [listed_eq, List.mem_flatMap]
  refine ⟨fun ⟨a, _, hx⟩ => ⟨a, hx⟩, fun ⟨a, hx⟩ => ⟨a, List.mem_range.2 ?_, hx⟩⟩
  by_contra hn
  rw [childrenOf_eq_nil (Nat.le_of_not_lt hn)] at hx
  cases hx

/-- **No node is listed twice**, by one node or by two. -/
theorem Sound.nodup_listed {d : Document} (h : d.Sound) : d.listed.Nodup := by
  rw [listed_eq, List.nodup_flatMap]
  refine ⟨fun a _ => h.nodup a, List.nodup_range.imp fun {a b} hne x ha hb => hne ?_⟩
  exact h.parent_unique a b x ha hb

end Document

namespace Build

open Document

/-- **What a step does**: nothing, or it creates a root, or it appends a new node to an element that a
handle names. -/
theorem document_step (b : Build) (s : BuildStep) : (b.step s).document = b.document ∨
    (∃ tag attributes, (b.step s).document = b.document.createRoot tag attributes) ∨
    ∃ p ∈ b.handles, ∃ n : Node, n.New ∧ (b.step s).document = b.document.append p n := by
  cases s with
  | root tag attributes => exact .inr (.inl ⟨tag, attributes, rfl⟩)
  | element parent tag attributes =>
    rw [step]
    split
    case h_1 p hp => exact .inr (.inr ⟨p, List.mem_of_getElem? hp, _, .element tag attributes, rfl⟩)
    case h_2 => exact .inl rfl
  | text parent content =>
    rw [step]
    split
    case h_1 p hp => exact .inr (.inr ⟨p, List.mem_of_getElem? hp, _, .text content, rfl⟩)
    case h_2 => exact .inl rfl

theorem named_step {b : Build} (h : b.document.Named) (s : BuildStep) : (b.step s).document.Named := by
  rcases b.document_step s with hs | ⟨tag, attributes, hs⟩ | ⟨p, -, n, hn, hs⟩
  · rw [hs]
    exact h
  · rw [hs]
    exact h.add (.element tag attributes) (kind?_createRoot _ tag attributes)
  · rw [hs]
    exact h.add hn kind?_append

theorem named_run (steps : List BuildStep) : (run steps).document.Named :=
  List.foldlRecOn (motive := fun b => b.document.Named) steps step
    (by simp [Named, kind?, Document.empty]) fun _ h s _ => named_step h s

/-! ## Roots -/

/-- `x` is stored and no node lists it. -/
structure Unlisted (b : Build) (x : NodeId) : Prop where
  ok : b.Ok
  stored : x < b.document.nodes.size
  unlisted : ∀ a, x ∉ b.document.childrenOf a

/-- What a step lists is a new node, so it does not list `x`. -/
theorem Unlisted.step {b : Build} {x : NodeId} (h : b.Unlisted x) (s : BuildStep) :
    (b.step s).Unlisted x := by
  refine ⟨h.ok.step s, ?_, fun a => ?_⟩ <;>
    rcases b.document_step s with hs | ⟨tag, attributes, hs⟩ | ⟨p, hp, n, hn, hs⟩ <;> rw [hs]
  · exact h.stored
  · exact Nat.lt_of_lt_of_le h.stored (by simp [createRoot])
  · exact Nat.lt_of_lt_of_le h.stored (by simp)
  · exact h.unlisted a
  · rw [childrenOf_createRoot]
    exact h.unlisted a
  · have hs := lt_size_of_isElement (h.ok.handles p hp)
    rw [mem_childrenOf_append hs hn.children, not_or]
    exact ⟨h.unlisted a, fun hx => Nat.ne_of_lt h.stored hx.2⟩

/-- The number of a root that is being created is not listed yet. -/
theorem unlisted_root {b : Build} (h : b.Ok) (tag : String) (attributes : List Attribute) :
    (b.step (.root tag attributes)).Unlisted b.document.nextId := by
  refine ⟨h.step _, lt_size_of_isElement (isElement_nextId_createRoot _ tag attributes),
    fun a hx => ?_⟩
  rw [step, childrenOf_createRoot] at hx
  exact Nat.lt_irrefl _ (h.sound.child_lt_size a _ hx)

/-- **A root is never listed**, whatever is added after it. -/
theorem root_notMem_listed (before : List BuildStep) (tag : String) (attributes : List Attribute)
    (after : List BuildStep) : (run before).document.nextId ∉
      (run (before ++ .root tag attributes :: after)).document.listed := by
  have run_eq : run (before ++ .root tag attributes :: after) =
      after.foldl step ((run before).step (.root tag attributes)) := by
    simp [run]
  have kept : (run (before ++ .root tag attributes :: after)).Unlisted (run before).document.nextId := by
    rw [run_eq]
    exact List.foldlRecOn (motive := (Unlisted · (run before).document.nextId)) after step
      (unlisted_root (ok_run before) tag attributes) fun _ h s _ => h.step s
  exact fun hm => (mem_listed.1 hm).elim kept.unlisted

end Build

end PageAudit
