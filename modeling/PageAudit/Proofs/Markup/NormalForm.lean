import PageAudit.Proofs.Markup.Escape

/-!
# Trees up to what markup shows

Markup does not show what is inside a void element, empty texts, and where one text ends and the next
begins. `Tree.normal` forgets just that; the trees without any of it are `Tree.IsNormal`.

* `markup_normal`: the markup of a tree is that of its normal form, and `isNormal_normal`: the normal
  form is normal.
* `markup_append_inj`: the markup of a normal element reads back, whatever follows it, and so do
  normal trees in a row up to the closing tag behind them (`markupAll_append_inj`).
* `markup_eq_iff`, `outerHtml_eq_iff`: equal markup is the same as equal normal forms.
-/

namespace PageAudit

namespace Tree

open Markup

/-! ## Normal form -/

def isText : Tree → Bool
  | .text _ => true
  | .element .. => false

/-- Puts a tree before others: no text if it is empty, and one text with a text that follows. -/
def attach : Tree → List Tree → List Tree
  | .text a, .text b :: ts => .text (a ++ b) :: ts
  | .text a, ts => if a = "" then ts else .text a :: ts
  | t, ts => t :: ts

mutual

/-- The tree without what is inside void elements and without empty texts, adjacent texts joined. -/
def normal : Tree → Tree
  | .text content => .text content
  | .element tag attributes children =>
    .element tag attributes (if isVoid tag then [] else normalAll children)

def normalAll : List Tree → List Tree
  | [] => []
  | t :: ts => attach (normal t) (normalAll ts)

end

mutual

/-- No void element has children, no child is an empty text, and no two texts stand side by side. -/
def IsNormal : Tree → Prop
  | .text _ => True
  | .element tag _ children => (isVoid tag = true → children = []) ∧ AllNormal children

def AllNormal : List Tree → Prop
  | [] => True
  | t :: ts => IsNormal t ∧ t ≠ .text "" ∧ (t.isText = true → ∀ u ∈ ts.head?, u.isText = false) ∧
    AllNormal ts

end

mutual

/-- Every element has a tag and attribute names that read back. -/
def WellNamed : Tree → Prop
  | .text _ => True
  | .element tag attributes children =>
    TagOk tag ∧ (∀ a ∈ attributes, NameOk a) ∧ AllWellNamed children

def AllWellNamed : List Tree → Prop
  | [] => True
  | t :: ts => WellNamed t ∧ AllWellNamed ts

end

/-! ## What the normal form keeps -/

theorem markupAll_attach (t : Tree) (ts : List Tree) :
    markupAll (attach t ts) = markup t ++ markupAll ts := by
  unfold attach
  split
  · simp [markupAll, markup, text_append]
  · split
    · next h => simp [h, markup, Markup.text]
    · rfl
  · rfl

mutual

theorem markup_normal : ∀ t : Tree, t.normal.markup = t.markup
  | .text _ => by simp [normal]
  | .element tag attributes children => by
    by_cases hv : isVoid tag = true
    · simp [normal, markup, hv]
    · simp [normal, markup, hv, markupAll_normalAll children]

theorem markupAll_normalAll : ∀ ts : List Tree, markupAll (normalAll ts) = markupAll ts
  | [] => by simp [normalAll]
  | t :: ts => by
    rw [normalAll, markupAll_attach, markup_normal t, markupAll_normalAll ts, markupAll]

end

theorem allNormal_attach : ∀ {t : Tree} {ts : List Tree}, t.IsNormal → AllNormal ts →
    AllNormal (attach t ts)
  | .element .., _, ht, hts => ⟨ht, by simp, by simp [isText], hts⟩
  | .text a, .text b :: ts, _, ⟨_, hb, hnext, hts⟩ => by
    refine ⟨trivial, fun h => hb ?_, hnext, hts⟩
    simp only [Tree.text.injEq, String.append_eq_empty_iff] at h
    rw [h.2]
  | .text a, [], _, _ => by
    by_cases ha : a = "" <;> simp [attach, ha, AllNormal, IsNormal]
  | .text a, .element .. :: _, _, hts => by
    by_cases ha : a = ""
    · simpa [attach, ha] using hts
    · rw [attach, if_neg ha]
      · exact ⟨trivial, by simpa using ha, by simp [isText], hts⟩
      · simp

mutual

theorem isNormal_normal : ∀ t : Tree, t.normal.IsNormal
  | .text _ => by simp [normal, IsNormal]
  | .element tag attributes children => by
    by_cases hv : isVoid tag = true
    · simp [normal, IsNormal, hv, AllNormal]
    · simp [normal, IsNormal, hv, allNormal_normalAll children]

theorem allNormal_normalAll : ∀ ts : List Tree, AllNormal (normalAll ts)
  | [] => by simp [normalAll, AllNormal]
  | t :: ts => by
    rw [normalAll]
    exact allNormal_attach (isNormal_normal t) (allNormal_normalAll ts)

end

theorem allWellNamed_attach {t : Tree} {ts : List Tree} (ht : t.WellNamed)
    (hts : AllWellNamed ts) : AllWellNamed (attach t ts) := by
  unfold attach
  split
  · exact ⟨trivial, hts.2⟩
  · split
    · exact hts
    · exact ⟨trivial, hts⟩
  · exact ⟨ht, hts⟩

mutual

theorem WellNamed.normal : ∀ {t : Tree}, t.WellNamed → t.normal.WellNamed
  | .text _, _ => by simp [Tree.normal, WellNamed]
  | .element tag attributes children, ⟨ht, ha, hc⟩ => by
    by_cases hv : isVoid tag = true
    · simpa [Tree.normal, WellNamed, hv, ht, AllWellNamed] using ha
    · simpa [Tree.normal, WellNamed, hv, ht, AllWellNamed.normalAll hc] using ha

theorem AllWellNamed.normalAll : ∀ {ts : List Tree}, AllWellNamed ts →
    AllWellNamed (Tree.normalAll ts)
  | [], _ => by simp [Tree.normalAll, AllWellNamed]
  | _ :: _, ⟨ht, hts⟩ => by
    rw [Tree.normalAll]
    exact allWellNamed_attach ht.normal hts.normalAll

end

/-! ## Reading markup back -/

theorem markup_element_append (tag : String) (attributes : List Attribute) (children : List Tree)
    (r : List Char) : markup (.element tag attributes children) ++ r = openingTag tag attributes ++
      if isVoid tag then r else markupAll children ++ (closingTag tag ++ r) := by
  by_cases hv : isVoid tag = true <;> simp [markup, hv]

/-- Markup that is over or goes on with a closing tag. -/
def Closes (r : List Char) : Prop := ∃ r', r = '<' :: '/' :: r'

theorem closes_closingTag (tag : String) (r : List Char) : Closes (closingTag tag ++ r) :=
  ⟨tag.toList ++ '>' :: r, by simp [closingTag]⟩

/-- What follows a text in a row of normal trees begins with `<`. -/
theorem head?_markupAll_append {ts : List Tree} {r : List Char}
    (hts : ∀ u ∈ ts.head?, u.isText = false) (hr : Closes r) :
    ∀ c ∈ (markupAll ts ++ r).head?, c = '<' := by
  obtain ⟨r', rfl⟩ := hr
  cases ts with
  | nil => simp [markupAll]
  | cons u us =>
    cases u with
    | text b => simp [isText] at hts
    | element tag attributes children =>
      rw [markupAll, List.append_assoc, markup_element_append]
      simp [openingTag]

/-- A row of normal trees does not begin like a closing tag. -/
theorem markup_append_not_closes {t : Tree} (hw : t.WellNamed) (ht : t ≠ .text "")
    (r : List Char) : ¬ Closes (t.markup ++ r) := by
  rintro ⟨r', h⟩
  cases t with
  | text a => exact text_append_ne_lt (by simpa using ht) r _ (by rwa [markup] at h)
  | element tag attributes children =>
    rw [markup_element_append] at h
    exact openingTag_append_ne_closing hw.1 _ _ _ h

mutual

/-- **The markup of a normal element reads back**, whatever follows it. -/
theorem markup_append_inj : ∀ {t u : Tree} {r s : List Char}, t.isText = false → u.isText = false →
    t.WellNamed → u.WellNamed → t.IsNormal → u.IsNormal → t.markup ++ r = u.markup ++ s →
    t = u ∧ r = s
  | .element tag as cs, .element tag' bs ds, r, s, _, _, ⟨ht, ha, hc⟩, ⟨hu, hb, hd⟩,
      ⟨hcv, hcn⟩, ⟨hdv, hdn⟩, h => by
    rw [markup_element_append, markup_element_append] at h
    obtain ⟨rfl, rfl, hrest⟩ := openingTag_append_inj ht hu ha hb h
    by_cases hv : isVoid tag = true
    · rw [if_pos hv, if_pos hv] at hrest
      exact ⟨by rw [hcv hv, hdv hv], hrest⟩
    · rw [if_neg hv, if_neg hv] at hrest
      obtain ⟨rfl, hclose⟩ := markupAll_append_inj (closes_closingTag tag r)
        (closes_closingTag tag s) hc hd hcn hdn hrest
      exact ⟨rfl, List.append_cancel_left hclose⟩

/-- Normal trees in a row read back up to the closing tag behind them. -/
theorem markupAll_append_inj : ∀ {ts us : List Tree} {r s : List Char}, Closes r → Closes s →
    AllWellNamed ts → AllWellNamed us → AllNormal ts → AllNormal us →
    markupAll ts ++ r = markupAll us ++ s → ts = us ∧ r = s
  | [], [], _, _, _, _, _, _, _, _, h => ⟨rfl, h⟩
  | [], u :: us, r, s, hr, _, _, ⟨hu, _⟩, _, ⟨_, hne, _⟩, h => by
    rw [markupAll, markupAll, List.nil_append, List.append_assoc] at h
    exact absurd (h ▸ hr) (markup_append_not_closes hu hne _)
  | t :: ts, [], r, s, _, hs, ⟨ht, _⟩, _, ⟨_, hne, _⟩, _, h => by
    rw [markupAll, markupAll, List.nil_append, List.append_assoc] at h
    exact absurd (h ▸ hs) (markup_append_not_closes ht hne _)
  | .text a :: ts, .text b :: us, r, s, hr, hs, ⟨_, hts⟩, ⟨_, hus⟩, ⟨_, _, ha, hnt⟩,
      ⟨_, _, hb, hnu⟩, h => by
    simp only [markupAll, markup, List.append_assoc] at h
    -- a text ends where the next tag begins
    obtain ⟨hab, h⟩ := Text.append_inj_of_stop (· = '<') lt_not_mem_text lt_not_mem_text
      (head?_markupAll_append (ha rfl) hr) (head?_markupAll_append (hb rfl) hs) h
    obtain ⟨rfl, rfl⟩ := markupAll_append_inj hr hs hts hus hnt hnu h
    exact ⟨by rw [text_injective hab], rfl⟩
  | .text a :: ts, .element .. :: us, r, s, _, _, _, _, ⟨_, hne, _⟩, _, h => by
    rw [markupAll, markupAll, List.append_assoc, List.append_assoc, markup_element_append,
      markup] at h
    exact absurd h (text_append_ne_lt (by simpa using hne) _ _)
  | .element .. :: ts, .text b :: us, r, s, _, _, _, _, _, ⟨_, hne, _⟩, h => by
    rw [markupAll, markupAll, List.append_assoc, List.append_assoc, markup_element_append,
      markup] at h
    exact absurd h.symm (text_append_ne_lt (by simpa using hne) _ _)
  | .element tag as cs :: ts, .element tag' bs ds :: us, r, s, hr, hs, ⟨ht, hts⟩, ⟨hu, hus⟩,
      ⟨htn, _, _, hnt⟩, ⟨hun, _, _, hnu⟩, h => by
    rw [markupAll, markupAll, List.append_assoc, List.append_assoc] at h
    obtain ⟨he, h⟩ := markup_append_inj rfl rfl ht hu htn hun h
    obtain ⟨rfl, rfl⟩ := markupAll_append_inj hr hs hts hus hnt hnu h
    exact ⟨by rw [he], rfl⟩

end

theorem lt_mem_markup (tag : String) (attributes : List Attribute) (children : List Tree) :
    '<' ∈ markup (.element tag attributes children) := by
  have h := markup_element_append tag attributes children []
  rw [List.append_nil] at h
  simp [h, openingTag]

/-- Normal trees with the same markup are equal. -/
theorem eq_of_markup_eq : ∀ {t u : Tree}, t.WellNamed → u.WellNamed → t.IsNormal → u.IsNormal →
    t.markup = u.markup → t = u
  | .text a, .text b, _, _, _, _, h => by
    rw [markup, markup] at h
    rw [text_injective h]
  | .text a, .element tag as cs, _, _, _, _, h => by
    have := lt_mem_markup tag as cs
    rw [← h, markup] at this
    exact absurd rfl (lt_not_mem_text _ this)
  | .element tag as cs, .text b, _, _, _, _, h => by
    have := lt_mem_markup tag as cs
    rw [h, markup] at this
    exact absurd rfl (lt_not_mem_text _ this)
  | .element .., .element .., ht, hu, htn, hun, h =>
    (markup_append_inj rfl rfl ht hu htn hun (congrArg (· ++ []) h)).1

theorem markup_eq_iff {t u : Tree} (ht : t.WellNamed) (hu : u.WellNamed) :
    t.markup = u.markup ↔ t.normal = u.normal := by
  rw [← markup_normal t, ← markup_normal u]
  exact ⟨eq_of_markup_eq ht.normal hu.normal (isNormal_normal t) (isNormal_normal u),
    congrArg markup⟩

end Tree

/-- **Markup is unambiguous.** Of elements whose names read back, in whatever documents they are, two
have the same markup if and only if the trees below them have the same normal form. -/
theorem Element.outerHtml_eq_iff {e₁ e₂ : Element} (h₁ : e₁.tree.WellNamed)
    (h₂ : e₂.tree.WellNamed) : e₁.outerHtml = e₂.outerHtml ↔ e₁.tree.normal = e₂.tree.normal := by
  rw [← Tree.markup_eq_iff h₁ h₂]
  exact ⟨fun h => String.ofList_injective h, congrArg String.ofList⟩

/-- A paragraph with a title and two texts, made of four nodes with the root in the middle. -/
def titled (title first second : String) : Element :=
  ⟨⟨#[⟨.text second, #[]⟩, ⟨.element "p" [⟨"title", title⟩], #[2, 0]⟩, ⟨.text first, #[]⟩], some 1⟩, 1⟩

theorem wellNamed_titled (title first second : String) :
    (titled title first second).tree.WellNamed := by
  simp [titled, Element.tree, Document.tree, Document.treeTo, Tree.WellNamed, Tree.AllWellNamed,
    Markup.TagOk, Markup.NameOk]

/-- A quote and the entity that it is written as are told apart; where a text is cut is not. -/
theorem outerHtml_titled :
    (titled "\"" "a" "<b").tree.WellNamed ∧ (titled "&quot;" "a" "<b").tree.WellNamed ∧
    (titled "\"" "a<" "b").tree.WellNamed ∧
    (titled "\"" "a" "<b").outerHtml ≠ (titled "&quot;" "a" "<b").outerHtml ∧
    (titled "\"" "a" "<b").outerHtml = (titled "\"" "a<" "b").outerHtml := by
  have h₁ := wellNamed_titled "\"" "a" "<b"
  have h₂ := wellNamed_titled "&quot;" "a" "<b"
  have h₃ := wellNamed_titled "\"" "a<" "b"
  refine ⟨h₁, h₂, h₃, (Element.outerHtml_eq_iff h₁ h₂).not.2 ?_,
    (Element.outerHtml_eq_iff h₁ h₃).2 ?_⟩
  · simp [titled, Element.tree, Document.tree, Document.treeTo, Tree.normal]
  · simp [titled, Element.tree, Document.tree, Document.treeTo, Tree.normal, Tree.normalAll,
      Tree.attach]

end PageAudit
