import PageAudit.Proofs.Document.Parsed
import PageAudit.Proofs.Document.Stored
import Mathlib.Data.String.Basic

/-!
# The tree of a parsed page

The work list of `Document.addPending` numbers the nodes of a page neither level by level nor in
document order. **The tree below the root is the parsed one all the same** (`tree_of_parsed`): only the
nodes without text are left out, and attributes are put in the order of their names.

* `Html.Node.trees`: what is to be seen of a parsed node. `Sound.map_tree`: a document that shows parsed
  nodes has it.
* `Attribute.sorted_eq_of_perm`: attributes of different names have one order only. So parsed nodes that
  differ in the order of attributes (`Reordered`) have one document, turn by turn
  (`Reordered.addChildren`, `Reordered.addPending`).
-/

namespace PageAudit

/-! ## Names as they are -/

theorem Text.lower_eq_self {s : String} (h : IsLower s) : lower s = s := by
  have same : s.toList.map Char.toLower = s.toList := by
    conv_rhs => rw [← List.map_id s.toList]
    exact List.map_congr_left fun c hc => isUpper_eq_false_iff.1 (h c hc)
  rw [lower, same, String.ofList_toList]

namespace Attribute

variable {tag : String} {attributes attributes' : List Attribute}

/-- Attributes that could all be kept are kept as they are. -/
theorem foldl_keep {kept : List Attribute} (h : ProperNames tag (kept ++ attributes)) :
    attributes.foldl keep kept = kept ++ attributes := by
  induction attributes generalizing kept with
  | nil => simp
  | cons a attributes ih =>
    have name : Text.lower a.name = a.name := Text.lower_eq_self (h.names a (by simp))
    have fresh : ¬ kept.any (·.name == Text.lower a.name) = true := by
      have hnd := h.distinct
      rw [List.map_append, List.map_cons, List.nodup_append] at hnd
      intro hk
      obtain ⟨b, hb, hbn⟩ := List.any_eq_true.1 hk
      exact hnd.2.2 b.name (List.mem_map.2 ⟨b, hb, rfl⟩) a.name (by simp)
        ((beq_iff_eq.1 hbn).trans name)
    rw [List.foldl_cons, keep, if_neg fresh, name]
    rw [ih (by simpa using h), List.append_assoc]
    rfl

theorem distinct_eq_self (h : ProperNames tag attributes) : distinct attributes = attributes :=
  foldl_keep (by simpa using h)

theorem sorted_perm (attributes : List Attribute) : (sorted attributes).Perm attributes :=
  List.mergeSort_perm _ _

theorem pairwise_sorted (h : (attributes.map (·.name)).Nodup) :
    (sorted attributes).Pairwise fun a b => a.name < b.name := by
  have le : (sorted attributes).Pairwise fun a b => decide (a.name ≤ b.name) = true :=
    List.pairwise_mergeSort (fun a b c => by simpa using le_trans)
      (fun a b => by simpa using le_total a.name b.name) attributes
  have ne : (sorted attributes).Pairwise fun a b => a.name ≠ b.name :=
    List.pairwise_map.1 (((sorted_perm attributes).map _).nodup_iff.2 h)
  exact (le.and ne).imp fun h => lt_of_le_of_ne (of_decide_eq_true h.1) h.2

/-- Attributes of different names have one order only. -/
theorem sorted_eq_of_perm (h : (attributes.map (·.name)).Nodup) (hp : attributes.Perm attributes') :
    sorted attributes = sorted attributes' := by
  have h' : (attributes'.map (·.name)).Nodup := (hp.map _).nodup_iff.1 h
  refine List.Perm.eq_of_pairwise (fun a b _ _ hab hba => absurd hba (not_lt_of_gt hab))
    (pairwise_sorted h) (pairwise_sorted h') ?_
  exact (sorted_perm attributes).trans (hp.trans (sorted_perm attributes').symm)

theorem sorted_eq_self (h : attributes.Pairwise fun a b => a.name < b.name) :
    sorted attributes = attributes :=
  List.mergeSort_of_pairwise (h.imp fun hab => decide_eq_true (le_of_lt hab))

end Attribute

theorem ProperNames.sorted {tag : String} {attributes : List Attribute}
    (h : ProperNames tag attributes) : ProperNames tag (Attribute.sorted attributes) where
  tag := h.tag
  names a ha := h.names a ((Attribute.sorted_perm attributes).mem_iff.1 ha)
  distinct := ((Attribute.sorted_perm attributes).map _).nodup_iff.2 h.distinct

/-- What is stored of an element with proper names. -/
theorem ProperNames.kind_sorted {tag : String} {attributes : List Attribute}
    (h : ProperNames tag attributes) :
    (Node.element tag (Attribute.sorted attributes)).kind =
      .element tag (Attribute.sorted attributes) := by
  rw [Node.element, Text.lower_eq_self h.tag, Attribute.distinct_eq_self h.sorted]

/-! ## What is to be seen -/

namespace Html

/-- Every element has proper names. -/
inductive Proper : List Node → Prop
  | nil : Proper []
  | element {tag : String} {attributes : List Attribute} {children ns : List Node} :
    ProperNames tag attributes → Proper children → Proper ns →
      Proper (.element tag attributes children :: ns)
  | text {content : String} {ns : List Node} : Proper ns → Proper (.text content :: ns)
  | other {ns : List Node} : Proper ns → Proper (.other :: ns)

namespace Node

mutual

/-- The tree of a parsed node, if it is an element or a text. The attributes are put in order. -/
def trees : Node → List Tree
  | .element tag attributes children => [.element tag (Attribute.sorted attributes) (treesAll children)]
  | .text content => [.text content]
  | .other => []

def treesAll : List Node → List Tree
  | [] => []
  | n :: ns => trees n ++ treesAll ns

end

end Node

/-- The same nodes, but for the order of the attributes in each element. -/
inductive Reordered : List Node → List Node → Prop
  | nil : Reordered [] []
  | element {tag : String} {attributes attributes' : List Attribute}
    {children children' ns ns' : List Node} : attributes.Perm attributes' →
      Reordered children children' → Reordered ns ns' →
      Reordered (.element tag attributes children :: ns) (.element tag attributes' children' :: ns')
  | text {content : String} {ns ns' : List Node} : Reordered ns ns' →
      Reordered (.text content :: ns) (.text content :: ns')
  | other {ns ns' : List Node} : Reordered ns ns' → Reordered (.other :: ns) (.other :: ns')

end Html

namespace Document

open Html

theorem Sound.map_tree {d : Document} (hd : d.Sound) {ns : List Html.Node} {ids : List NodeId}
    (h : d.Shown ns ids) (proper : Proper ns) : ids.map d.tree = Html.Node.treesAll ns := by
  induction h with
  | nil => rfl
  | element hk _ _ below rest =>
    obtain _ | ⟨names, children, ns⟩ := proper
    rw [names.kind_sorted] at hk
    rw [List.map_cons, hd.tree_element hk, below children, rest ns]
    rfl
  | text hk _ rest =>
    obtain _ | _ | ns := proper
    rw [List.map_cons, Sound.tree_text hk, rest ns]
    rfl
  | other _ rest =>
    obtain _ | _ | _ | ns := proper
    rw [rest ns]
    rfl

/-! ## Order of attributes -/

/-- What waits for an element is the same but for the order of attributes. -/
structure Pending.Reordered (p p' : Pending) : Prop where
  parent : p.parent = p'.parent
  children : Html.Reordered p.children p'.children
  proper : Proper p.children

theorem addChildren_reordered {ns ns' : List Html.Node} (h : Html.Reordered ns ns') (proper : Proper ns)
    (d : Document) (parent : NodeId) :
    (d.addChildren parent ns).1 = (d.addChildren parent ns').1 ∧
      List.Forall₂ Pending.Reordered (d.addChildren parent ns).2 (d.addChildren parent ns').2 := by
  induction h generalizing d with
  | nil => exact ⟨rfl, .nil⟩
  | element perm below _ _ rest =>
    obtain _ | ⟨names, children, ns⟩ := proper
    obtain ⟨same, waiting⟩ := rest ns (d.appendElement parent _ (Attribute.sorted _))
    rw [addChildren, addChildren, ← Attribute.sorted_eq_of_perm names.distinct perm]
    exact ⟨same, .cons ⟨rfl, below, children⟩ waiting⟩
  | text _ rest =>
    obtain _ | _ | ns := proper
    exact rest ns _
  | other _ rest =>
    obtain _ | _ | _ | ns := proper
    exact rest ns d

theorem addPending_reordered {d : Document} {pending pending' : List Pending}
    (h : List.Forall₂ Pending.Reordered pending pending') :
    d.addPending pending = d.addPending pending' := by
  induction d, pending using addPending.induct generalizing pending' with
  | case1 d =>
    obtain _ | _ := h
    rfl
  | case2 d p pending added =>
    rename_i ih
    obtain _ | ⟨first, rest⟩ := h
    obtain ⟨same, waiting⟩ := addChildren_reordered first.children first.proper d p.parent
    rw [addPending, addPending, ← first.parent, ← same]
    exact ih (List.rel_append waiting rest)

/-! ## Every parsed page -/

theorem shown_ofParsed (tag : String) (attributes : List Attribute) (children : List Html.Node) :
    (ofParsed (.element tag attributes children)).Shown [.element tag attributes children]
      [empty.nextId] := by
  have filled := (ready_root tag (Attribute.sorted attributes) children).fills
  have stored : empty.nextId < (empty.createRoot tag (Attribute.sorted attributes)).nodes.size :=
    lt_size_of_isElement (isElement_nextId_createRoot empty tag _)
  refine .element ?_ (filled.shown ⟨empty.nextId, children⟩ (by simp)) .nil
  rw [ofParsed, filled.kind _ stored, kind?_createRoot, if_pos rfl]

/-- **The tree of a page is the parsed one**, whatever its shape, with the attributes in the order of
their names. The order in which they are given makes no difference to the document. -/
theorem tree_of_parsed (tag : String) (attributes : List Attribute) (children : List Html.Node)
    (h : Proper [.element tag attributes children]) :
    (ofParsed (.element tag attributes children)).rootTree? =
      some (.element tag (Attribute.sorted attributes) (Html.Node.treesAll children)) ∧
    (∀ n', Html.Reordered [.element tag attributes children] [n'] →
      ofParsed n' = ofParsed (.element tag attributes children)) ∧
    ∀ attributes : List Attribute, (attributes.map (·.name)).Nodup →
      (Attribute.sorted attributes).Perm attributes ∧
        (Attribute.sorted attributes).Pairwise fun a b => a.name < b.name := by
  refine ⟨?_, fun n' hn => ?_, fun attributes hnd => ?_⟩
  · have tree := (sound_ofParsed _).map_tree (shown_ofParsed tag attributes children) h
    rw [rootTree?, root?_ofParsed, Option.map_some]
    exact congrArg some (List.singleton_inj.1 tree)
  · obtain _ | ⟨names, below, -⟩ := h
    obtain _ | ⟨perm, reordered, -⟩ := hn
    rename_i attributes' children'
    rw [ofParsed, ofParsed, ← Attribute.sorted_eq_of_perm names.distinct perm]
    have waiting : Pending.Reordered ⟨empty.nextId, children⟩ ⟨empty.nextId, children'⟩ :=
      ⟨rfl, reordered, below⟩
    exact (addPending_reordered (.cons waiting .nil)).symm
  · exact ⟨Attribute.sorted_perm attributes, Attribute.pairwise_sorted hnd⟩

/-- A page with a text before and after an element, and a comment. -/
def nestedParagraph (attributes : List Attribute) : Html.Node :=
  .element "html" []
    [.element "body" []
      [.text "One", .other, .element "p" attributes [.text "Two", .element "em" [] [.text "Three"]],
        .text "Four"]]

/-- The nodes of this page are numbered out of order. -/
theorem tree_of_parsed_nestedParagraph :
    (ofParsed (nestedParagraph [⟨"id", "a"⟩, ⟨"class", "b"⟩])).rootTree? =
      some (.element "html" []
        [.element "body" []
          [.text "One", .element "p" [⟨"class", "b"⟩, ⟨"id", "a"⟩]
            [.text "Two", .element "em" [] [.text "Three"]], .text "Four"]]) ∧
    ofParsed (nestedParagraph [⟨"class", "b"⟩, ⟨"id", "a"⟩]) =
      ofParsed (nestedParagraph [⟨"id", "a"⟩, ⟨"class", "b"⟩]) := by
  have plain : ∀ {tag : String}, Text.lower tag = tag → ProperNames tag [] := fun h =>
    h ▸ Attribute.properNames_distinct _ []
  have named : ProperNames "p" [⟨"id", "a"⟩, ⟨"class", "b"⟩] := by
    have h := Attribute.properNames_distinct "p" [⟨"id", "a"⟩, ⟨"class", "b"⟩]
    rwa [show Text.lower "p" = "p" from by decide,
      show Attribute.distinct [⟨"id", "a"⟩, ⟨"class", "b"⟩] = [⟨"id", "a"⟩, ⟨"class", "b"⟩] from
        by decide] at h
  have proper : Html.Proper [nestedParagraph [⟨"id", "a"⟩, ⟨"class", "b"⟩]] := by
    refine .element (plain (by decide)) (.element (plain (by decide)) ?_ .nil) .nil
    refine .text (.other (.element named ?_ (.text .nil)))
    exact .text (.element (plain (by decide)) (.text .nil) .nil)
  obtain ⟨tree, reordered, -⟩ := tree_of_parsed _ _ _ proper
  have bare : Attribute.sorted [] = [] := Attribute.sorted_eq_self .nil
  have swapped : Attribute.sorted [⟨"id", "a"⟩, ⟨"class", "b"⟩] = [⟨"class", "b"⟩, ⟨"id", "a"⟩] :=
    (Attribute.sorted_eq_of_perm (by decide) (.swap _ _ _)).trans
      (Attribute.sorted_eq_self (by decide))
  refine ⟨tree.trans ?_, reordered _ ?_⟩
  · simp [Html.Node.treesAll, Html.Node.trees, bare, swapped]
  · refine .element .rfl (.element .rfl (.text ?_) .nil) .nil
    exact .other (.element (.swap _ _ _) (.text (.element .rfl (.text .nil) .nil)) (.text .nil))

end Document

end PageAudit
