import PageAudit.Document.Build
import PageAudit.Proofs.Rule.Naming
import Mathlib.Data.List.Induction
import Std.Data.HashMap.Lemmas

/-!
# Links with one name and two destinations

The rule on links with the same name looks up, for each link, where the first link with its name leads.

* `Rule.Elsewhere`: a link does not lead to where the first link with its name leads.
  `Rule.flagged_sameText_iff` and `Rule.mem_sameText_iff`: these links are flagged, and what is said of
  each quotes the name and the first destination.
* `Rule.findings_sameText_eq_nil_iff`: nothing is found exactly if links with one name lead to one
  place.
* `Rule.LinkScan`: one pass over the links with a table that grows on the way. What the table knows
  after some links is where the first of them with each name leads (`Rule.LinkScan.Seen`), and that is
  all a later link asks for (`Rule.LinkScan.evaluation_eq`).
* `Catalogue.same_text_same_target`: all of this on every page with a root.
-/

namespace PageAudit

namespace Rule

open Catalogue (linkNaming)

/-! ## The first link with a name -/

/-- Where a link leads; one without a destination counts as empty. -/
def destination (e : Element) : String :=
  (e.attr? "href").getD ""

/-- Each named one of some links with its destination, in their order. -/
def destinationsAmong (xs : List Element) : List (String × String) :=
  xs.filterMap fun e => (linkName? e).map fun name => (name, destination e)

/-- The first of the links `xs` that `name` announces is `first`, at `index`. -/
structure FirstNamed (xs : List Element) (name : String) (index : Nat) (first : Element) : Prop where
  here : xs[index]? = some first
  named : Announced linkNaming first name
  earliest : ∀ i e, i < index → xs[i]? = some e → ¬ Announced linkNaming e name

theorem linkName?_eq_some_iff {e : Element} {name : String} :
    linkName? e = some name ↔ Announced linkNaming e name :=
  Element.accessibleName?_eq_some_iff

variable {xs : List Element} {name : String}

theorem find?_named_eq_some_iff {first : Element} :
    xs.find? (linkName? · == some name) = some first ↔ ∃ j, FirstNamed xs name j first := by
  rw [List.find?_eq_some_iff_getElem]
  constructor
  · rintro ⟨hnamed, j, hj, rfl, hbefore⟩
    refine ⟨j, List.getElem?_eq_getElem hj, linkName?_eq_some_iff.1 (by simpa using hnamed), ?_⟩
    intro i e hij he hann
    obtain ⟨hi, rfl⟩ := List.getElem?_eq_some_iff.1 he
    have := hbefore i hij
    simp [linkName?_eq_some_iff.2 hann] at this
  · rintro ⟨j, hhere, hnamed, hearliest⟩
    obtain ⟨hj, rfl⟩ := List.getElem?_eq_some_iff.1 hhere
    refine ⟨by simp [linkName?_eq_some_iff.2 hnamed], j, hj, rfl, fun i hij => ?_⟩
    have hn := hearliest i xs[i] hij (List.getElem?_eq_getElem (by omega))
    simpa [linkName?_eq_some_iff] using hn

/-- A name that announces a link announces a first one. -/
theorem exists_firstNamed {e : Element} (he : e ∈ xs) (hn : Announced linkNaming e name) :
    ∃ j first, FirstNamed xs name j first := by
  cases hf : xs.find? (linkName? · == some name) with
  | none =>
    have := List.find?_eq_none.1 hf e he
    simp [linkName?_eq_some_iff.2 hn] at this
  | some first =>
    obtain ⟨j, hj⟩ := find?_named_eq_some_iff.1 hf
    exact ⟨j, first, hj⟩

/-- Where the first link with a name leads. -/
def firstDestination? (xs : List Element) (name : String) : Option String :=
  (xs.find? (linkName? · == some name)).map destination

theorem firstDestination?_eq_some_iff {href : String} : firstDestination? xs name = some href ↔
    ∃ j first, FirstNamed xs name j first ∧ destination first = href := by
  constructor
  · intro h
    obtain ⟨first, hf, hd⟩ := Option.map_eq_some_iff.1 h
    obtain ⟨j, hj⟩ := find?_named_eq_some_iff.1 hf
    exact ⟨j, first, hj, hd⟩
  · rintro ⟨j, first, hj, hd⟩
    exact Option.map_eq_some_iff.2 ⟨first, find?_named_eq_some_iff.2 ⟨j, hj⟩, hd⟩

@[simp] theorem firstDestination?_nil : firstDestination? [] name = none := rfl

theorem firstDestination?_append (e : Element) : firstDestination? (xs ++ [e]) name =
    (firstDestination? xs name).or
      (if linkName? e = some name then some (destination e) else none) := by
  rw [firstDestination?, List.find?_append, Option.map_or, firstDestination?]
  by_cases hn : linkName? e = some name <;> simp [hn]

/-- A link whose name is known already, or that has none, changes no first destination. -/
theorem firstDestination?_append_of_known {e : Element}
    (h : ∀ n, linkName? e = some n → (firstDestination? xs n).isSome = true) :
    firstDestination? (xs ++ [e]) name = firstDestination? xs name := by
  rw [firstDestination?_append]
  by_cases hn : linkName? e = some name
  · obtain ⟨first, hfirst⟩ := Option.isSome_iff_exists.1 (h name hn)
    rw [hfirst, Option.some_or]
  · rw [if_neg hn, Option.or_none]

theorem isSome_firstDestination? {e : Element} (he : e ∈ xs) (hn : linkName? e = some name) :
    (firstDestination? xs name).isSome = true := by
  obtain ⟨j, first, hfirst⟩ := exists_firstNamed he (linkName?_eq_some_iff.1 hn)
  exact Option.isSome_iff_exists.2 ⟨_, firstDestination?_eq_some_iff.2 ⟨j, first, hfirst, rfl⟩⟩

/-- To look a name up among the names and destinations is to ask for the first link with it. -/
theorem find?_destinationsAmong :
    ((destinationsAmong xs).find? (·.1 == name)).map (·.2) = firstDestination? xs name := by
  induction xs with
  | nil => rfl
  | cons e xs ih =>
    cases hn : linkName? e with
    | none =>
      rw [destinationsAmong, List.filterMap_cons_none (by simp [hn]), firstDestination?,
        List.find?_cons_of_neg (by simp [hn])]
      exact ih
    | some n =>
      rw [destinationsAmong, List.filterMap_cons_some (b := (n, destination e)) (by simp [hn]),
        firstDestination?]
      by_cases heq : n = name
      · rw [List.find?_cons_of_pos (by simp [heq]), List.find?_cons_of_pos (by simp [hn, heq])]
        rfl
      · rw [List.find?_cons_of_neg (by simpa using heq),
          List.find?_cons_of_neg (by simpa [hn] using heq)]
        exact ih

/-! ## Links that lead elsewhere -/

/-- What is said of a link when the first one with its name leads to `href`. -/
def sameTextSummary (name href : String) : String :=
  "Link text \"" ++ name ++ "\" is also used for a link to \"" ++ href ++ "\""

/-- The link `e` at `index` is announced by `name` and does not lead to `href`, which is where the first
link with that name leads. -/
structure Elsewhere (xs : List Element) (index : Nat) (e : Element) (name href : String) : Prop where
  here : xs[index]? = some e
  named : Announced linkNaming e name
  first : ∃ j first, FirstNamed xs name j first ∧ first.attr? "href" = some href
  other : e.attr? "href" ≠ some href

theorem leadsElsewhere_nameless {known : List (String × String)} {e : Element} (i : Nat)
    (h : linkName? e = none) : leadsElsewhere known i e = none := by
  simp [leadsElsewhere, h]

theorem leadsElsewhere_named {e : Element} (i : Nat) (h : linkName? e = some name) :
    leadsElsewhere (destinationsAmong xs) i e = (firstDestination? xs name).bind fun first =>
      if first = destination e then none else some (sameTextSummary name first) := by
  rw [← find?_destinationsAmong, Option.bind_map]
  simp only [leadsElsewhere, h, Option.bind_eq_bind, Option.bind_some, beq_iff_eq]
  rfl

theorem attr?_href_eq {e : Element} (h : e.hasAttr "href" = true) :
    e.attr? "href" = some (destination e) := by
  obtain ⟨href, hhref⟩ := Option.isSome_iff_exists.1 h
  simp [destination, hhref]

theorem leadsElsewhere_eq_some_iff (hxs : ∀ e ∈ xs, e.hasAttr "href" = true) {i : Nat} {e : Element}
    (he : xs[i]? = some e) {summary : String} :
    leadsElsewhere (destinationsAmong xs) i e = some summary ↔
      ∃ name href, Elsewhere xs i e name href ∧ summary = sameTextSummary name href := by
  have hhref := attr?_href_eq (hxs e (List.mem_of_getElem? he))
  constructor
  · intro h
    cases hn : linkName? e with
    | none => rw [leadsElsewhere_nameless i hn] at h; cases h
    | some name =>
      rw [leadsElsewhere_named i hn] at h
      obtain ⟨href, hfirst, hs⟩ := Option.bind_eq_some_iff.1 h
      obtain ⟨j, first, hj, rfl⟩ := firstDestination?_eq_some_iff.1 hfirst
      split at hs
      case isTrue => cases hs
      case isFalse hne =>
        refine ⟨name, destination first, ⟨he, linkName?_eq_some_iff.1 hn, ⟨j, first, hj, ?_⟩, ?_⟩,
          (Option.some.inj hs).symm⟩
        · exact attr?_href_eq (hxs first (List.mem_of_getElem? hj.here))
        · rw [hhref]
          exact fun heq => hne (Option.some.inj heq).symm
  · rintro ⟨name, href, ⟨-, hnamed, ⟨j, first, hj, hfirst⟩, hother⟩, rfl⟩
    have hd : destination first = href := by simp [destination, hfirst]
    have hne : href ≠ destination e := fun heq => hother (by rw [hhref, heq])
    rw [leadsElsewhere_named i (linkName?_eq_some_iff.2 hnamed),
      firstDestination?_eq_some_iff.2 ⟨j, first, hj, hd⟩, Option.bind_some, if_neg hne]

theorem mem_sameText_iff (hxs : ∀ e ∈ xs, e.hasAttr "href" = true) {f : Finding} :
    f ∈ findingsIn .nth (leadsElsewhere (destinationsAmong xs)) xs ↔
      ∃ i e name href, Elsewhere xs i e name href ∧
        f = (Locator.nth e i).finding (sameTextSummary name href) := by
  rw [mem_findingsIn_iff]
  constructor
  · rintro ⟨i, e, summary, he, hs, rfl⟩
    obtain ⟨name, href, helse, rfl⟩ := (leadsElsewhere_eq_some_iff hxs he).1 hs
    exact ⟨i, e, name, href, helse, rfl⟩
  · rintro ⟨i, e, name, href, helse, rfl⟩
    exact ⟨i, e, _, helse.here,
      (leadsElsewhere_eq_some_iff hxs helse.here).2 ⟨name, href, helse, rfl⟩, rfl⟩

theorem flagged_sameText_iff (hxs : ∀ e ∈ xs, e.hasAttr "href" = true) {scanned : List Element}
    {i : Nat} :
    Flagged xs (.ofScan scanned (findingsIn .nth (leadsElsewhere (destinationsAmong xs)) xs)) i ↔
      ∃ e name href, Elsewhere xs i e name href := by
  rw [flagged_ofScan_iff]
  constructor
  · rintro ⟨e, summary, he, hs⟩
    obtain ⟨name, href, helse, -⟩ := (leadsElsewhere_eq_some_iff hxs he).1 hs
    exact ⟨e, name, href, helse⟩
  · rintro ⟨e, name, href, helse⟩
    exact ⟨e, _, helse.here, (leadsElsewhere_eq_some_iff hxs helse.here).2 ⟨name, href, helse, rfl⟩⟩

/-- **Nothing is found** exactly if links that one name announces lead to one place: two that do not
cannot both lead to where the first one leads. -/
theorem findings_sameText_eq_nil_iff (hxs : ∀ e ∈ xs, e.hasAttr "href" = true) :
    findingsIn .nth (leadsElsewhere (destinationsAmong xs)) xs = [] ↔
      ∀ e ∈ xs, ∀ e' ∈ xs, ∀ name, Announced linkNaming e name → Announced linkNaming e' name →
        e.attr? "href" = e'.attr? "href" := by
  rw [List.eq_nil_iff_forall_not_mem]
  constructor
  · intro h
    have toFirst : ∀ e ∈ xs, ∀ name j first, Announced linkNaming e name →
        FirstNamed xs name j first → e.attr? "href" = first.attr? "href" := by
      intro e he name j first hn hfirst
      obtain ⟨i, hi⟩ := List.mem_iff_getElem?.1 he
      have hhref := attr?_href_eq (hxs first (List.mem_of_getElem? hfirst.here))
      by_contra hne
      rw [hhref] at hne
      exact h _ ((mem_sameText_iff hxs).2
        ⟨i, e, name, _, ⟨hi, hn, ⟨j, first, hfirst, hhref⟩, hne⟩, rfl⟩)
    intro e he e' he' name hn hn'
    obtain ⟨j, first, hfirst⟩ := exists_firstNamed he hn
    rw [toFirst e he name j first hn hfirst, toFirst e' he' name j first hn' hfirst]
  · intro h f hf
    obtain ⟨i, e, name, href, helse, -⟩ := (mem_sameText_iff hxs).1 hf
    obtain ⟨j, first, hfirst, hhref⟩ := helse.first
    refine helse.other ?_
    rw [← hhref]
    exact h e (List.mem_of_getElem? helse.here) first (List.mem_of_getElem? hfirst.here) name
      helse.named hfirst.named

/-! ## One pass with a growing table -/

/-- A pass over links: where the first link with each name so far leads, the number of links with a
name, and what was found. -/
structure LinkScan where
  known : Std.HashMap String String := {}
  named : Nat := 0
  findings : List Finding := []

namespace LinkScan

/-- Visits a link and its number. A link without a name changes nothing. A new name is entered with its
destination, which stays; a known one is compared. -/
def visit (s : LinkScan) : Element × Nat → LinkScan
  | (e, i) =>
    match linkName? e with
    | none => s
    | some name =>
      match s.known[name]? with
      | none => { s with known := s.known.insert name (destination e), named := s.named + 1 }
      | some first =>
        if first = destination e then { s with named := s.named + 1 }
        else { s with
          named := s.named + 1
          findings := s.findings ++ [(Locator.nth e i).finding (sameTextSummary name first)] }

def run (xs : List Element) : LinkScan :=
  xs.zipIdx.foldl visit {}

/-- The rule applies if a link has a name. -/
def evaluation (s : LinkScan) : Evaluation :=
  ⟨decide (0 < s.named), s.findings⟩

section
variable {s : LinkScan} {e : Element} {i : Nat}

theorem visit_nameless (hn : linkName? e = none) : s.visit (e, i) = s := by
  simp [visit, hn]

theorem visit_new (hn : linkName? e = some name) (hk : s.known[name]? = none) : s.visit (e, i) =
    { s with known := s.known.insert name (destination e), named := s.named + 1 } := by
  simp [visit, hn, hk]

theorem visit_known {first : String} (hn : linkName? e = some name)
    (hk : s.known[name]? = some first) : s.visit (e, i) =
      if first = destination e then { s with named := s.named + 1 }
      else { s with
        named := s.named + 1
        findings := s.findings ++ [(Locator.nth e i).finding (sameTextSummary name first)] } := by
  simp [visit, hn, hk]

end

/-- The pass has seen the links `xs`. -/
structure Seen (xs : List Element) (s : LinkScan) : Prop where
  known : ∀ name, s.known[name]? = firstDestination? xs name
  named : s.named = (xs.filter fun e => (linkName? e).isSome).length
  findings : s.findings = findingsIn .nth (leadsElsewhere (destinationsAmong xs)) xs

theorem leadsElsewhere_append {e : Element} (he : e ∈ xs) (last : Element) (i : Nat) :
    leadsElsewhere (destinationsAmong (xs ++ [last])) i e =
      leadsElsewhere (destinationsAmong xs) i e := by
  cases hn : linkName? e with
  | none => rw [leadsElsewhere_nameless i hn, leadsElsewhere_nameless i hn]
  | some name =>
    obtain ⟨first, hfirst⟩ := Option.isSome_iff_exists.1 (isSome_firstDestination? he hn)
    rw [leadsElsewhere_named i hn, leadsElsewhere_named i hn, firstDestination?_append, hfirst,
      Option.some_or]

/-- What is found of the links so far does not depend on the next one: the first link with the name of
one of them is one of them. -/
theorem findingsIn_append (xs : List Element) (e : Element) :
    findingsIn .nth (leadsElsewhere (destinationsAmong (xs ++ [e]))) (xs ++ [e]) =
      findingsIn .nth (leadsElsewhere (destinationsAmong xs)) xs ++
        ((leadsElsewhere (destinationsAmong (xs ++ [e])) xs.length e).map
          (Locator.nth e xs.length).finding).toList := by
  have before : ∀ x ∈ xs.zipIdx,
      ((leadsElsewhere (destinationsAmong (xs ++ [e])) x.2 x.1).map (Locator.nth x.1 x.2).finding) =
        (leadsElsewhere (destinationsAmong xs) x.2 x.1).map (Locator.nth x.1 x.2).finding :=
    fun x hx => by rw [leadsElsewhere_append (List.fst_mem_of_mem_zipIdx hx)]
  rw [findingsIn, List.zipIdx_append, List.filterMap_append]
  refine congrArg₂ (· ++ ·) (List.filterMap_congr before) ?_
  cases h : leadsElsewhere (destinationsAmong (xs ++ [e])) xs.length e <;> simp [h]

/-- **One link more.** The table keeps what it has; a link is compared with the first of its name, or is
the first. -/
theorem Seen.visit {s : LinkScan} (h : s.Seen xs) (e : Element) :
    (s.visit (e, xs.length)).Seen (xs ++ [e]) := by
  have found := findingsIn_append xs e
  rw [← h.findings] at found
  cases hn : linkName? e with
  | none =>
    rw [leadsElsewhere_nameless _ hn] at found
    rw [visit_nameless hn]
    refine ⟨fun other => ?_, by simp [hn, h.named], by simpa using found.symm⟩
    rw [firstDestination?_append_of_known (by simp [hn]), h.known]
  | some name =>
    have named : s.named + 1 = ((xs ++ [e]).filter fun e => (linkName? e).isSome).length := by
      simp [hn, h.named]
    rw [leadsElsewhere_named _ hn, firstDestination?_append, ← h.known, if_pos hn] at found
    cases hk : s.known[name]? with
    | none =>
      -- The link is the first with its name, and does not lead elsewhere than to where it leads.
      rw [visit_new hn hk]
      refine ⟨fun other => ?_, named, by simpa [hk] using found.symm⟩
      rw [firstDestination?_append, ← h.known, Std.HashMap.getElem?_insert]
      by_cases heq : name = other
      · subst heq
        simp [hn, hk]
      · simp [hn, heq]
    | some first =>
      have old : ∀ n, linkName? e = some n → (firstDestination? xs n).isSome = true := by
        intro n hn'
        obtain rfl : name = n := Option.some.inj (hn.symm.trans hn')
        simp [← h.known, hk]
      have known : ∀ other, s.known[other]? = firstDestination? (xs ++ [e]) other := fun other => by
        rw [firstDestination?_append_of_known old, h.known]
      rw [visit_known hn hk]
      rw [hk, Option.some_or, Option.bind_some] at found
      split at found
      case isTrue hsame =>
        rw [if_pos hsame]
        exact ⟨known, named, by simpa using found.symm⟩
      case isFalse hother =>
        rw [if_neg hother]
        exact ⟨known, named, found.symm⟩

/-- **After any number of links** the pass has seen these. -/
theorem seen_run (xs : List Element) : (run xs).Seen xs := by
  induction xs using List.reverseRecOn with
  | nil => exact ⟨fun _ => by simp [run], rfl, rfl⟩
  | append_singleton xs e ih =>
    have last : run (xs ++ [e]) = (run xs).visit (e, xs.length) := by
      simp [run, List.zipIdx_append]
    rw [last]
    exact ih.visit e

theorem evaluation_eq (xs : List Element) : (run xs).evaluation =
    .ofScan (xs.filter fun e => (linkName? e).isSome)
      (findingsIn .nth (leadsElsewhere (destinationsAmong xs)) xs) := by
  have seen := seen_run xs
  rw [evaluation, seen.named, seen.findings, Evaluation.ofScan]
  cases xs.filter fun e => (linkName? e).isSome <;> simp

end LinkScan

end Rule

namespace Catalogue

open Rule

theorem hasAttr_href_of_mem_links {p : Page} : ∀ e ∈ links p, e.hasAttr "href" = true := fun _ he =>
  (List.mem_filter.1 he).2

/-- **Links with one name.** On every page with a root the rule goes through the anchors with a
destination, in document order. It flags one exactly if something announces it and it leads elsewhere
than the first anchor that is announced so, and quotes both the name and that destination. So it finds
nothing exactly if any two with one name lead to one place, and it applies exactly if one has a name.
All this is what one pass does, with a table of the names so far. -/
theorem same_text_same_target {d : Document} {limits : Limits} {p : Page}
    (hp : Page.ofDocument? d limits = some p) :
    (links p = d.elements.filter fun e => e.tag == "a" && e.hasAttr "href") ∧
    InOrder Element.outerHtml (links p) (linkSameTextDiffTarget.check p).findings ∧
    (∀ i, Flagged (links p) (linkSameTextDiffTarget.check p) i ↔
      ∃ e name href, Elsewhere (links p) i e name href) ∧
    (∀ f, f ∈ (linkSameTextDiffTarget.check p).findings ↔
      ∃ i e name href, Elsewhere (links p) i e name href ∧
        f = (Locator.nth e i).finding (sameTextSummary name href)) ∧
    ((linkSameTextDiffTarget.check p).findings = [] ↔
      ∀ e ∈ links p, ∀ e' ∈ links p, ∀ name, Announced linkNaming e name →
        Announced linkNaming e' name → e.attr? "href" = e'.attr? "href") ∧
    ((linkSameTextDiffTarget.check p).applicable = true ↔
      ∃ e ∈ links p, ∃ name, Announced linkNaming e name) ∧
    linkSameTextDiffTarget.check p = (LinkScan.run (links p)).evaluation := by
  have hrefs := hasAttr_href_of_mem_links (p := p)
  refine ⟨links_eq hp, inOrder_findingsIn (fun _ _ => rfl) _ _, fun i => flagged_sameText_iff hrefs,
    fun f => mem_sameText_iff hrefs, findings_sameText_eq_nil_iff hrefs, ?applies,
    (LinkScan.evaluation_eq (links p)).symm⟩
  case applies =>
    have scanned : (linkSameTextDiffTarget.check p).applicable =
        !((links p).filter fun e => (linkName? e).isSome).isEmpty := rfl
    rw [scanned, Bool.not_eq_true', List.isEmpty_eq_false_iff_exists_mem]
    constructor
    · rintro ⟨e, he⟩
      obtain ⟨he, hn⟩ := List.mem_filter.1 he
      obtain ⟨name, hname⟩ := Option.isSome_iff_exists.1 hn
      exact ⟨e, he, name, linkName?_eq_some_iff.1 hname⟩
    · rintro ⟨e, he, name, hname⟩
      exact ⟨e, List.mem_filter.2 ⟨he, by simp [linkName?_eq_some_iff.2 hname]⟩⟩

/-- A page with three links to documents, the last of which leads elsewhere and gets its name from an
attribute. -/
def docsLinks : Document :=
  .ofSteps [.root "body" [], .element 0 "a" [⟨"href", "/a"⟩], .text 1 "Docs",
    .element 0 "a" [⟨"href", "/a"⟩], .text 2 " Docs",
    .element 0 "a" [⟨"href", "/b"⟩, ⟨"title", "Docs"⟩]]

def docsLinksPage : Page :=
  ⟨docsLinks, ⟨docsLinks, 0⟩, {}⟩

/-- The third is flagged, with what it is called and where the first leads. -/
theorem same_text_same_target_docs : Page.ofDocument? docsLinks {} = some docsLinksPage ∧
    Flagged (links docsLinksPage) (linkSameTextDiffTarget.check docsLinksPage) 2 ∧
    ⟨"<a href=\"/b\" title=\"Docs\"></a>", ["a:nth-child(3)"],
      "Link text \"Docs\" is also used for a link to \"/a\""⟩ ∈
        (linkSameTextDiffTarget.check docsLinksPage).findings ∧
    (linkSameTextDiffTarget.check docsLinksPage).applicable = true := by
  have hp : Page.ofDocument? docsLinks {} = some docsLinksPage := rfl
  obtain ⟨-, -, flagged, found, -, applies, -⟩ := same_text_same_target hp
  have listed : links docsLinksPage = [⟨docsLinks, 1⟩, ⟨docsLinks, 3⟩, ⟨docsLinks, 5⟩] := rfl
  have first : FirstNamed (links docsLinksPage) "Docs" 0 ⟨docsLinks, 1⟩ :=
    ⟨rfl, linkName?_eq_some_iff.1 (by decide), fun i _ hi => by omega⟩
  have third : Elsewhere (links docsLinksPage) 2 ⟨docsLinks, 5⟩ "Docs" "/a" :=
    ⟨rfl, linkName?_eq_some_iff.1 (by decide), ⟨0, _, first, by decide⟩, by decide⟩
  exact ⟨hp, (flagged 2).2 ⟨_, _, _, third⟩, (found _).2 ⟨2, _, _, _, third, by decide⟩,
    applies.2 ⟨⟨docsLinks, 1⟩, by simp [listed], "Docs", first.named⟩⟩

end Catalogue

end PageAudit
