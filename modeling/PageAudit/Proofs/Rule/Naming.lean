import PageAudit.Document.Build
import PageAudit.Proofs.Rule.Coherence
import PageAudit.Proofs.Text.Spelling

/-!
# Names before wordings

The rules on names and the rules on what names say go through the same numbered lists, and each element
of a list is for one of them only: one without a name for the first, one with a name for the others.

* `Element.accessibleName?_eq_some_iff`: the name of an element is what announces it (`Announced`).
* `flagged_ofScan_iff`: a scan flags the element with a number exactly if its test says so.
* `Divided`: two rules share a list in this way. `divided_ofScan` has it of any scan that only a name
  can make flag something.
* `Catalogue.names_before_wordings`: so do the rules on links, and those on buttons.
-/

namespace PageAudit

/-! ## What announces an element -/

/-- `name` announces the element: its content, or if that is blank the first of the `attributes` that
it has and that is not blank; in either case single-spaced. -/
inductive Announced (attributes : List String) (e : Element) : String → Prop
  | content : Text.isBlankText e.textContent = false →
      Announced attributes e (Text.normalize e.textContent)
  | fallback {before after : List String} {a value : String} :
      Text.isBlankText e.textContent = true → attributes = before ++ a :: after →
      (∀ b ∈ before, ∀ v, e.attr? b = some v → Text.isBlankText v = true) →
      e.attr? a = some value → Text.isBlankText value = false →
      Announced attributes e (Text.normalize value)

namespace Element

/-- An attribute that is not blank, single-spaced. -/
def worded? (e : Element) (a : String) : Option String :=
  (e.attr? a).bind fun v => if Text.isBlankText v then none else some (Text.normalize v)

theorem worded?_eq_some_iff {e : Element} {a name : String} : e.worded? a = some name ↔
    ∃ v, e.attr? a = some v ∧ Text.isBlankText v = false ∧ Text.normalize v = name := by
  simp [worded?, Option.bind_eq_some_iff]

theorem worded?_eq_none_iff {e : Element} {a : String} : e.worded? a = none ↔
    ∀ v, e.attr? a = some v → Text.isBlankText v = true := by
  simp [worded?, Option.bind_eq_none_iff]

theorem find?_normalize_cons (s : String) (candidates : List String) :
    ((s :: candidates).map Text.normalize).find? (· ≠ "") =
      if Text.isBlankText s then (candidates.map Text.normalize).find? (· ≠ "")
      else some (Text.normalize s) := by
  by_cases hs : Text.isBlankText s = true
  · simp [hs, Text.normalize_eq_empty_iff.2 hs]
  · have hne : Text.normalize s ≠ "" := fun h => hs (Text.normalize_eq_empty_iff.1 h)
    simp [hs, hne]

theorem find?_attributes (e : Element) (attributes : List String) :
    ((attributes.filterMap e.attr?).map Text.normalize).find? (· ≠ "") =
      attributes.findSome? e.worded? := by
  induction attributes with
  | nil => rfl
  | cons a attributes ih =>
    cases ha : e.attr? a with
    | none =>
      have hw : e.worded? a = none := worded?_eq_none_iff.2 (by simp [ha])
      rw [List.filterMap_cons_none ha, ih, List.findSome?_cons, hw]
    | some v =>
      rw [List.filterMap_cons_some ha, find?_normalize_cons, ih, List.findSome?_cons]
      by_cases hv : Text.isBlankText v = true <;> simp [worded?, ha, hv]

/-- **The name of an element** is what announces it. -/
theorem accessibleName?_eq_some_iff {attributes : List String} {e : Element} {name : String} :
    e.accessibleName? attributes = some name ↔ Announced attributes e name := by
  unfold accessibleName?
  rw [find?_normalize_cons, find?_attributes]
  constructor
  · intro h
    split at h
    case isTrue hblank =>
      obtain ⟨before, a, after, rfl, ha, hbefore⟩ := List.findSome?_eq_some_iff.1 h
      obtain ⟨v, hv, hworded, rfl⟩ := worded?_eq_some_iff.1 ha
      exact .fallback hblank rfl (fun b hb => worded?_eq_none_iff.1 (hbefore b hb)) hv hworded
    case isFalse hblank =>
      obtain rfl := Option.some.inj h
      exact .content (by simpa using hblank)
  · intro h
    cases h with
    | content hblank => rw [if_neg (by simp [hblank])]
    | @fallback before after a value hblank he hbefore ha hvalue =>
      rw [if_pos hblank]
      exact List.findSome?_eq_some_iff.2 ⟨before, a, after, he,
        worded?_eq_some_iff.2 ⟨value, ha, hvalue, rfl⟩,
        fun b hb => worded?_eq_none_iff.2 (hbefore b hb)⟩

theorem accessibleName?_eq_none_iff {attributes : List String} {e : Element} :
    e.accessibleName? attributes = none ↔ ∀ name, ¬ Announced attributes e name := by
  rw [Option.eq_none_iff_forall_ne_some]
  exact forall_congr' fun name => not_congr accessibleName?_eq_some_iff

end Element

/-! ## Flagged elements -/

/-- The evaluation flags the element at `index` of the numbered list `xs`. -/
def Flagged (xs : List Element) (v : Evaluation) (index : Nat) : Prop :=
  ∃ f ∈ v.findings, ShowsAt Element.outerHtml xs f index

/-- A finding with the target of a number shows the element with that number. -/
theorem InOrder.flagged {xs : List Element} {v : Evaluation}
    (h : InOrder Element.outerHtml xs v.findings) {f : Finding} (hf : f ∈ v.findings) {tag : String}
    {i : Nat} (ht : f.target = [Locator.numbered tag i]) : ShowsAt Element.outerHtml xs f i := by
  obtain ⟨indices, -, hs⟩ := h
  obtain ⟨j, -, e, he, hte, hh⟩ := exists_of_mem_forall₂ hs f hf
  obtain ⟨-, rfl⟩ := Locator.numbered_inj (List.cons.inj (ht.symm.trans hte)).1
  exact ⟨e, he, hte, hh⟩

/-- **A scan** flags the elements of which its test has something to say. -/
theorem flagged_ofScan_iff {scanned xs : List Element} {test : Test} {i : Nat} :
    Flagged xs (.ofScan scanned (findingsIn .nth test xs)) i ↔
      ∃ e summary, xs[i]? = some e ∧ test i e = some summary :=
  exists_showsAt_iff Locator.nth_eq

/-- The elements of a numbered list that an evaluation does not flag, with their numbers. -/
def unflagged (xs : List Element) (v : Evaluation) : List (Element × Nat) :=
  xs.zipIdx.filter fun (e, i) => !v.findings.any (·.target == [Locator.numbered e.tag i])

theorem mem_unflagged_iff {xs : List Element} {v : Evaluation}
    (h : InOrder Element.outerHtml xs v.findings) {e : Element} {i : Nat} :
    (e, i) ∈ unflagged xs v ↔ xs[i]? = some e ∧ ¬ Flagged xs v i := by
  rw [unflagged, List.mem_filter, List.mem_zipIdx_iff_getElem?]
  refine and_congr_right fun he => ?_
  rw [Bool.not_eq_true', List.any_eq_false]
  constructor
  · rintro hn ⟨f, hf, e', he', ht, -⟩
    obtain rfl : e = e' := Option.some.inj (he.symm.trans he')
    exact hn f hf (by simpa using ht)
  · intro hn f hf ht
    exact hn ⟨f, hf, h.flagged hf (by simpa using ht)⟩

/-! ## One list for two rules -/

/-- The evaluation of numbered elements by a test: it applies if there is one of them. -/
def Evaluation.ofNumbered (xs : List (Element × Nat)) (test : Test) : Evaluation :=
  ⟨!xs.isEmpty, xs.filterMap fun (e, i) =>
    (test i e).map fun summary => (Locator.nth e i).finding summary⟩

/-- A scan that flags nothing but elements of one kind is a scan of these, by their numbers in the
whole list. -/
theorem ofScan_filter_eq {test : Test} {q : Element → Bool}
    (hq : ∀ i e summary, test i e = some summary → q e = true) (xs : List Element) :
    Evaluation.ofScan (xs.filter q) (findingsIn .nth test xs) =
      .ofNumbered (xs.zipIdx.filter fun x => q x.1) test := by
  have scanned : xs.filter q = (xs.zipIdx.filter fun x => q x.1).map (·.1) := by
    conv_lhs => rw [← List.zipIdx_map_fst 0 xs]
    rw [List.filter_map]
    rfl
  have found : findingsIn .nth test xs = (xs.zipIdx.filter fun x => q x.1).filterMap fun (e, i) =>
      (test i e).map fun summary => (Locator.nth e i).finding summary := by
    rw [findingsIn, List.filterMap_filter]
    refine List.filterMap_congr fun ⟨e, i⟩ _ => ?_
    cases ht : test i e with
    | none => simp [ht]
    | some summary => simp [ht, hq i e summary ht]
  rw [Evaluation.ofScan, Evaluation.ofNumbered, scanned, found, List.isEmpty_map]

/-- **One list for two rules.** Of the numbered list `xs` the evaluation `naming` flags the elements
that nothing announces. All the others, and no more, are what `wording` is about. -/
structure Divided (attributes : List String) (xs : List Element) (naming wording : Evaluation)
    (test : Test) : Prop where
  naming_order : InOrder Element.outerHtml xs naming.findings
  wording_order : InOrder Element.outerHtml xs wording.findings
  nameless : ∀ i e, xs[i]? = some e →
    (Flagged xs naming i ↔ ∀ name, ¬ Announced attributes e name)
  considered : wording = .ofNumbered (unflagged xs naming) test
  applicable : wording.applicable = true ↔ ∃ i < xs.length, ¬ Flagged xs naming i
  apart : ∀ f ∈ naming.findings, ∀ g ∈ wording.findings, f.target ≠ g.target

theorem Divided.not_flagged {attributes : List String} {xs : List Element}
    {naming wording : Evaluation} {test : Test} (h : Divided attributes xs naming wording test)
    {i : Nat} (hi : Flagged xs naming i) : ¬ Flagged xs wording i := by
  obtain ⟨f, hf, e, he, hft, -⟩ := hi
  rintro ⟨g, hg, e', he', hgt, -⟩
  obtain rfl : e = e' := Option.some.inj (he.symm.trans he')
  exact h.apart f hf g hg (hft.trans hgt.symm)

/-- A rule on wording flags the elements whose name is one of the `phrases` in lower case. -/
def Phrased (attributes phrases : List String) (xs : List Element) (wording : Evaluation) : Prop :=
  ∀ i e, xs[i]? = some e → (Flagged xs wording i ↔
    ∃ name, Announced attributes e name ∧ ∃ phrase ∈ phrases, Text.LowerCase name phrase)

namespace Rule

section
variable {attributes : List String} {xs : List Element}

theorem flagged_nameless_iff (summary : String) {i : Nat} {e : Element} (he : xs[i]? = some e) :
    Flagged xs (.ofScan xs
        (findingsIn .nth (nameless (·.accessibleName? attributes) summary) xs)) i ↔
      ∀ name, ¬ Announced attributes e name := by
  rw [flagged_ofScan_iff, ← Element.accessibleName?_eq_none_iff]
  constructor
  · rintro ⟨e', s, he', hs⟩
    obtain rfl : e = e' := Option.some.inj (he.symm.trans he')
    by_contra hn
    rw [nameless, if_neg (by simpa using hn)] at hs
    cases hs
  · intro hn
    exact ⟨e, summary, he, by simp [nameless, hn]⟩

/-- What the rule on names leaves are the elements with a name. -/
theorem unflagged_nameless (summary : String) : unflagged xs (.ofScan xs
      (findingsIn .nth (nameless (·.accessibleName? attributes) summary) xs)) =
    xs.zipIdx.filter fun x => (x.1.accessibleName? attributes).isSome := by
  have order : InOrder Element.outerHtml xs (Evaluation.ofScan xs
      (findingsIn .nth (nameless (·.accessibleName? attributes) summary) xs)).findings :=
    inOrder_findingsIn (fun _ _ => rfl) _ xs
  refine List.filter_congr fun ⟨e, i⟩ hm => ?_
  have he : xs[i]? = some e := List.mem_zipIdx_iff_getElem?.1 hm
  rw [Bool.eq_iff_iff, ← Option.ne_none_iff_isSome, ne_eq, Element.accessibleName?_eq_none_iff,
    ← flagged_nameless_iff summary he]
  have mem := mem_unflagged_iff order (e := e) (i := i)
  rw [unflagged, List.mem_filter] at mem
  exact ⟨fun h => (mem.1 ⟨hm, h⟩).2, fun h => (mem.2 ⟨he, h⟩).2⟩

/-- A rule that looks at the elements with a name, and flags none but these, shares the list with the
rule on names. -/
theorem divided_ofScan {summary : String} {test : Test}
    (ht : ∀ i e s, test i e = some s → (e.accessibleName? attributes).isSome = true) :
    Divided attributes xs
      (.ofScan xs (findingsIn .nth (nameless (·.accessibleName? attributes) summary) xs))
      (.ofScan (xs.filter fun e => (e.accessibleName? attributes).isSome)
        (findingsIn .nth test xs)) test := by
  have naming_order : InOrder Element.outerHtml xs (Evaluation.ofScan xs
      (findingsIn .nth (nameless (·.accessibleName? attributes) summary) xs)).findings :=
    inOrder_findingsIn (fun _ _ => rfl) _ xs
  have wording_order : InOrder Element.outerHtml xs (Evaluation.ofScan
      (xs.filter fun e => (e.accessibleName? attributes).isSome)
        (findingsIn .nth test xs)).findings :=
    inOrder_findingsIn (fun _ _ => rfl) test xs
  have considered := ofScan_filter_eq ht xs
  rw [← unflagged_nameless summary] at considered
  refine ⟨naming_order, wording_order, fun i e he => flagged_nameless_iff summary he, considered,
    ?_, ?_⟩
  · rw [considered, Evaluation.ofNumbered, Bool.not_eq_true', List.isEmpty_eq_false_iff_exists_mem]
    constructor
    · rintro ⟨⟨e, i⟩, hm⟩
      obtain ⟨he, hn⟩ := (mem_unflagged_iff naming_order).1 hm
      exact ⟨i, (List.getElem?_eq_some_iff.1 he).1, hn⟩
    · rintro ⟨i, hi, hn⟩
      exact ⟨(xs[i], i), (mem_unflagged_iff naming_order).2 ⟨List.getElem?_eq_getElem hi, hn⟩⟩
  · intro f hf g hg he
    obtain ⟨i, e, s, hxs, hs, rfl⟩ := mem_findingsIn_iff.1 hg
    have flagged : Flagged xs _ i := ⟨f, hf, naming_order.flagged hf he⟩
    have named := ht i e s hs
    rw [Element.accessibleName?_eq_none_iff.2 ((flagged_nameless_iff summary hxs).1 flagged)] at named
    cases named

theorem phrased_wordedAs {phrases : List String} {quote : String → String} {scanned : List Element}
    (h : ∀ phrase ∈ phrases, ∀ c ∈ phrase.toList, Text.IsAscii c) :
    Phrased attributes phrases xs (.ofScan scanned
      (findingsIn .nth (wordedAs (·.accessibleName? attributes) phrases quote) xs)) := by
  intro i e he
  rw [flagged_ofScan_iff]
  constructor
  · rintro ⟨e', s, he', hs⟩
    obtain rfl : e = e' := Option.some.inj (he.symm.trans he')
    obtain ⟨name, hname, hs⟩ := Option.bind_eq_some_iff.1 hs
    refine ⟨name, Element.accessibleName?_eq_some_iff.1 hname, (Text.isOneOf_iff h).1 ?_⟩
    by_contra hn
    rw [if_neg hn] at hs
    cases hs
  · rintro ⟨name, hname, hphrase⟩
    refine ⟨e, quote name, he, Option.bind_eq_some_iff.2
      ⟨name, Element.accessibleName?_eq_some_iff.2 hname, ?_⟩⟩
    rw [if_pos ((Text.isOneOf_iff h).2 hphrase)]

end

end Rule

namespace Catalogue

open Rule

/-- The attributes that announce a link without content, in their order. -/
def linkNaming : List String := ["aria-label", "title"]

/-- The attributes that announce a button without content, in their order. -/
def buttonNaming : List String := ["value", "aria-label", "title"]

/-- The names of numbered links, with their destinations. -/
def destinationsOf (xs : List (Element × Nat)) : List (String × String) :=
  xs.filterMap fun (e, _) => (linkName? e).map fun name => (name, (e.attr? "href").getD "")

theorem isAscii_vaguePhrases : ∀ phrase ∈ vaguePhrases, ∀ c ∈ phrase.toList, Text.IsAscii c :=
  Text.isAscii_of_all (by decide)

theorem isAscii_lowInformationPhrases :
    ∀ phrase ∈ lowInformationPhrases, ∀ c ∈ phrase.toList, Text.IsAscii c :=
  Text.isAscii_of_all (by decide)

theorem isSome_of_wordedAs {name? : Element → Option String} {phrases : List String}
    {quote : String → String} {i : Nat} {e : Element} {s : String}
    (h : wordedAs name? phrases quote i e = some s) : (name? e).isSome = true := by
  obtain ⟨name, hname, -⟩ := Option.bind_eq_some_iff.1 h
  simp [hname]

theorem isSome_of_leadsElsewhere {known : List (String × String)} {i : Nat} {e : Element}
    {s : String} (h : leadsElsewhere known i e = some s) : (linkName? e).isSome = true := by
  unfold leadsElsewhere at h
  obtain ⟨name, hname, -⟩ := Option.bind_eq_some_iff.1 h
  simp [hname]

/-- The destinations that count are those of the links that have a name. -/
theorem destinations_eq_unflagged (p : Page) :
    destinations p = destinationsOf (unflagged (links p) (linkName.check p)) := by
  have named : unflagged (links p) (linkName.check p) =
      (links p).zipIdx.filter fun x => (linkName? x.1).isSome := unflagged_nameless _
  have all : links p = (links p).zipIdx.map (·.1) := by rw [List.zipIdx_map_fst]
  unfold destinations destinationsOf
  rw [named, List.filterMap_filter]
  conv_lhs => rw [all, List.filterMap_map]
  refine List.filterMap_congr fun ⟨e, i⟩ _ => ?_
  cases hname : linkName? e <;> simp [hname]

theorem links_eq {d : Document} {limits : Limits} {p : Page}
    (hp : Page.ofDocument? d limits = some p) :
    links p = d.elements.filter fun e => e.tag == "a" && e.hasAttr "href" := by
  rw [elements_eq_of_page hp, links, Page.elements, Element.findAll, List.filter_filter]
  exact List.filter_congr fun e _ => by simp [Bool.and_comm, Bool.beq_eq_decide_eq]

theorem buttons_eq {d : Document} {limits : Limits} {p : Page}
    (hp : Page.ofDocument? d limits = some p) :
    buttons p = d.elements.filter fun e =>
      e.tag == "button" || e.tag == "input" && buttonTypes.contains e.inputType := by
  rw [elements_eq_of_page hp, buttons, Page.elements, Element.findAll, List.filter_filter]
  refine List.filter_congr fun e _ => ?_
  by_cases hb : e.tag = "button" <;> by_cases hi : e.tag = "input" <;> simp [hb, hi]

/-- **Names come before wordings.** On every page with a root the rules on links share the numbered
list of the anchors with a destination, and the rules on buttons that of the buttons. The rule on names
flags the elements that nothing announces: no content, and none of the attributes that may stand in
for it. The rules on wording are about all others and about no other, so they apply if there is one, and
no target is flagged by the rule on names and by one of them. Those on phrases flag what is announced
by a name whose lower case is one of their phrases. -/
theorem names_before_wordings {d : Document} {limits : Limits} {p : Page}
    (hp : Page.ofDocument? d limits = some p) :
    (links p = d.elements.filter fun e => e.tag == "a" && e.hasAttr "href") ∧
    (∃ remark : Element → Option String,
      Divided linkNaming (links p) (linkName.check p) (linkTextQuality.check p) fun _ => remark) ∧
    Divided linkNaming (links p) (linkName.check p) (linkSameTextDiffTarget.check p)
      (leadsElsewhere (destinationsOf (unflagged (links p) (linkName.check p)))) ∧
    Phrased linkNaming vaguePhrases (links p) (linkTextQuality.check p) ∧
    (buttons p = d.elements.filter fun e =>
      e.tag == "button" || e.tag == "input" && buttonTypes.contains e.inputType) ∧
    (∃ remark : Element → Option String,
      Divided buttonNaming (buttons p) (buttonName.check p) (buttonTextQuality.check p)
        fun _ => remark) ∧
    Phrased buttonNaming lowInformationPhrases (buttons p) (buttonTextQuality.check p) := by
  refine ⟨links_eq hp, ⟨_, divided_ofScan fun _ _ _ => isSome_of_wordedAs⟩, ?sameText, ?vague,
    buttons_eq hp, ⟨_, divided_ofScan fun _ _ _ => isSome_of_wordedAs⟩, ?lowInformation⟩
  case sameText =>
    rw [← destinations_eq_unflagged]
    exact divided_ofScan fun _ _ _ => isSome_of_leadsElsewhere
  case vague => exact phrased_wordedAs isAscii_vaguePhrases
  case lowInformation => exact phrased_wordedAs isAscii_lowInformationPhrases

/-- A page with a link that nothing announces, one announced by its title, and one to nowhere. -/
def threeLinks : Document :=
  .ofSteps [.root "html" [], .element 0 "a" [⟨"href", "/a"⟩, ⟨"aria-label", " "⟩],
    .element 0 "a" [], .element 0 "a" [⟨"href", "/b"⟩, ⟨"title", " More  "⟩]]

def threeLinksPage : Page :=
  ⟨threeLinks, ⟨threeLinks, 0⟩, {}⟩

/-- Of the two that have a destination the first is flagged for its name and not for its wording, the
second for its wording. -/
theorem names_before_wordings_three : Page.ofDocument? threeLinks {} = some threeLinksPage ∧
    Flagged (links threeLinksPage) (linkName.check threeLinksPage) 0 ∧
    ¬ Flagged (links threeLinksPage) (linkTextQuality.check threeLinksPage) 0 ∧
    Flagged (links threeLinksPage) (linkTextQuality.check threeLinksPage) 1 := by
  have hp : Page.ofDocument? threeLinks {} = some threeLinksPage := rfl
  obtain ⟨-, ⟨remark, divided⟩, -, phrased, -⟩ := names_before_wordings hp
  have first : (links threeLinksPage)[0]? = some ⟨threeLinks, 1⟩ := rfl
  have second : (links threeLinksPage)[1]? = some ⟨threeLinks, 3⟩ := rfl
  have nameless : linkName? ⟨threeLinks, 1⟩ = none := by decide
  have more : linkName? ⟨threeLinks, 3⟩ = some "More" := by decide
  have flagged := (divided.nameless 0 _ first).2 (Element.accessibleName?_eq_none_iff.1 nameless)
  have lowerCase : Text.LowerCase "More" "more" :=
    (Text.lowerCase_iff (isAscii_vaguePhrases _ (by decide))).2 (by decide)
  exact ⟨hp, flagged, divided.not_flagged flagged, (phrased 1 _ second).2
    ⟨"More", Element.accessibleName?_eq_some_iff.1 more, "more", by decide, lowerCase⟩⟩

end Catalogue

end PageAudit
