import PageAudit.Style
import PageAudit.Proofs.Text.Pieces

/-!
# Declarations that override

A style is asked for a property, and the last declaration of that property answers.

* `Declaration.valueOf_eq_iff`: what a declared value comes to (`Declaration.Cleaned`).
* `Style.parse_of_segments`: a style is read segment by segment, and one without a colon adds nothing,
  so what stands behind a semicolon is read for itself (`Style.parse_append`).
* `Style.isSome_get?_iff`: a style answers for the properties that one of its segments names
  (`Style.Declares`), and for no other.
* `Style.later_declarations_override`: what is declared later comes first, and only for its own
  property.
-/

namespace PageAudit

namespace Declaration

/-! ## One declaration -/

/-- What a value comes to: nothing blank at its ends, and if it ends in `!important` then without that
and without the blanks before it. -/
inductive Cleaned : List Char → List Char → Prop
  | plain {cs value : List Char} : Text.Trims cs value → ¬ important <:+ value → Cleaned cs value
  | important {cs value blanks : List Char} : Text.Trims cs (value ++ blanks ++ important) →
      (∀ c ∈ blanks, Text.isBlank c = true) → (∀ c ∈ value.getLast?, Text.isBlank c = false) →
      Cleaned cs value

theorem valueOf_plain {cs : List Char} (h : ¬ important <:+ Text.trimmed cs) :
    valueOf cs = Text.trimmed cs := by
  rw [valueOf, if_neg (by simpa using h)]

theorem valueOf_important {cs value : List Char} (h : Text.trimmed cs = value ++ important) :
    valueOf cs = Text.dropEndWhile Text.isBlank value := by
  have hs : important.isSuffixOf (Text.trimmed cs) = true :=
    List.isSuffixOf_iff_suffix.2 ⟨value, h.symm⟩
  rw [valueOf, if_pos hs, h, List.length_append, Nat.add_sub_cancel, List.take_left]

theorem valueOf_eq_iff {cs value : List Char} : valueOf cs = value ↔ Cleaned cs value := by
  constructor
  · rintro rfl
    have trims := Text.trims_trimmed cs
    by_cases h : important <:+ Text.trimmed cs
    · obtain ⟨written, hw⟩ := h
      obtain ⟨blanks, hb, hblank⟩ := Text.exists_dropEndWhile_append Text.isBlank written
      rw [valueOf_important hw.symm]
      refine .important ?_ hblank (Text.not_of_mem_getLast?_dropEndWhile _ _)
      rwa [← hb, hw]
    · rw [valueOf_plain h]
      exact .plain trims h
  · intro h
    cases h with
    | plain trims hn =>
      rw [← trims.trimmed_eq] at hn ⊢
      exact valueOf_plain hn
    | important trims hblank hlast =>
      rw [valueOf_important trims.trimmed_eq, Text.dropEndWhile_append_of_last hlast hblank]

theorem ofSegment?_of_not_mem {cs : List Char} (h : ':' ∉ cs) : ofSegment? cs = none := by
  rw [ofSegment?, Text.cutAt_eq_none_iff.2 h, Option.map_none]

/-- The property stands before the first colon. -/
theorem ofSegment?_append {name : List Char} (h : ':' ∉ name) (value : List Char) :
    ofSegment? (name ++ ':' :: value) = some
      ⟨.ofList ((Text.trimmed name).map Char.toLower), .ofList (valueOf value)⟩ := by
  rw [ofSegment?, Text.cutAt_eq_some_iff.2 ⟨h, rfl⟩, Option.map_some]

theorem ofSegment?_eq_some_iff {cs : List Char} {d : Declaration} : ofSegment? cs = some d ↔
    ∃ name value, ':' ∉ name ∧ cs = name ++ ':' :: value ∧
      d = ⟨.ofList ((Text.trimmed name).map Char.toLower), .ofList (valueOf value)⟩ := by
  constructor
  · intro h
    obtain ⟨⟨name, value⟩, hcut, rfl⟩ := Option.map_eq_some_iff.1 h
    obtain ⟨hn, hcs⟩ := Text.cutAt_eq_some_iff.1 hcut
    exact ⟨name, value, hn, hcs, rfl⟩
  · rintro ⟨name, value, hn, rfl, rfl⟩
    exact ofSegment?_append hn value

end Declaration

namespace Style

open Declaration

/-! ## Segments -/

/-- A text cut at its semicolons. -/
structure Segments (s : String) (segments : List String) : Prop where
  joined : s = ";".intercalate segments
  whole : ∀ segment ∈ segments, ';' ∉ segment.toList

theorem toList_intercalate (segments : List String) :
    (";".intercalate segments).toList = [';'].intercalate (segments.map String.toList) := by
  rw [String.toList_intercalate]
  rfl

theorem exists_segments (s : String) : ∃ segments, Segments s segments := by
  obtain ⟨-, whole, joined⟩ := Text.partsOf_eq_iff.1 (rfl : Text.partsOf (· == ';') s.toList = _)
  have back : ((Text.partsOf (· == ';') s.toList).map String.ofList).map String.toList =
      Text.partsOf (· == ';') s.toList := by
    simp [Function.comp_def]
  refine ⟨(Text.partsOf (· == ';') s.toList).map .ofList, ?_, fun segment hs => ?_⟩
  · rw [← String.toList_inj, toList_intercalate, back]
    exact joined
  · obtain ⟨part, hp, rfl⟩ := List.mem_map.1 hs
    rw [String.toList_ofList]
    exact whole part hp

/-- **A style is read segment by segment.** -/
theorem parse_of_segments {s : String} {segments : List String} (h : Segments s segments) :
    parse s = segments.filterMap fun segment => ofSegment? segment.toList := by
  by_cases hne : segments = []
  · rw [h.joined, hne]
    rfl
  · have parts : Text.partsOf (· == ';') s.toList = segments.map String.toList := by
      refine Text.partsOf_eq_iff.2 ⟨by simpa using hne, by simpa using h.whole, ?_⟩
      rw [h.joined, toList_intercalate]
    rw [parse, parts, List.filterMap_map]
    rfl

/-- Segments without a colon make no difference. -/
theorem parse_filter {segments : List String} (h : ∀ segment ∈ segments, ';' ∉ segment.toList) :
    parse (";".intercalate (segments.filter (':' ∈ ·.toList))) = parse (";".intercalate segments) := by
  have kept : ∀ segment ∈ segments.filter (':' ∈ ·.toList), ';' ∉ segment.toList := fun _ hs =>
    h _ (List.mem_of_mem_filter hs)
  rw [parse_of_segments ⟨rfl, h⟩, parse_of_segments ⟨rfl, kept⟩, List.filterMap_filter]
  refine List.filterMap_congr fun segment _ => ?_
  by_cases hc : ':' ∈ segment.toList
  · simp [hc]
  · simp [hc, ofSegment?_of_not_mem hc]

/-- What stands behind a semicolon is read for itself. -/
theorem parse_append (s t : String) : parse (s ++ ";" ++ t) = parse s ++ parse t := by
  have divided : (s ++ ";" ++ t).toList = s.toList ++ ';' :: t.toList := by simp
  rw [parse, divided, Text.partsOf_append_sep rfl, List.filterMap_append]
  rfl

/-! ## Properties -/

/-- A segment of the style names the property: before its first colon, with blanks around it and in
any case. -/
def Declares (s : String) (property : String) : Prop :=
  ∃ segments name value, Segments s segments ∧ name ++ ":" ++ value ∈ segments ∧
    ':' ∉ name.toList ∧ Text.lower (Text.trim name) = property

theorem get?_append (a b : Style) (property : String) :
    (a ++ b).get? property = (b.get? property).or (a.get? property) := by
  unfold get?
  rw [List.reverse_append, List.find?_append, Option.map_or]

theorem exists_declared_iff {s property : String} :
    (∃ d ∈ parse s, d.property = property) ↔ Declares s property := by
  constructor
  · rintro ⟨d, hd, rfl⟩
    obtain ⟨segments, hs⟩ := exists_segments s
    rw [parse_of_segments hs] at hd
    obtain ⟨segment, hm, hd⟩ := List.mem_filterMap.1 hd
    obtain ⟨name, value, hn, hsegment, rfl⟩ := ofSegment?_eq_some_iff.1 hd
    have written : segment = .ofList name ++ ":" ++ .ofList value := by
      simp [← String.toList_inj, hsegment]
    exact ⟨segments, .ofList name, .ofList value, hs, written ▸ hm, by simpa using hn,
      by simp [Text.lower, Text.trim]⟩
  · rintro ⟨segments, name, value, hs, hm, hn, rfl⟩
    have written : (name ++ ":" ++ value).toList = name.toList ++ ':' :: value.toList := by simp
    rw [parse_of_segments hs]
    refine ⟨_, List.mem_filterMap.2 ⟨_, hm, written ▸ ofSegment?_append hn value.toList⟩, ?_⟩
    simp [Text.lower, Text.trim]

/-- **A style answers** for the properties that it declares. -/
theorem isSome_get?_iff {s property : String} :
    ((parse s).get? property).isSome = true ↔ Declares s property := by
  rw [← exists_declared_iff]
  simp [get?]

/-! ## Later declarations -/

/-- A name as styles are asked for it: without blanks at its ends, without a letter A to Z, and without
the characters that would end it. -/
structure PropertyName (name : String) : Prop where
  trimmed : Text.trim name = name
  lower : Text.lower name = name
  colon : ':' ∉ name.toList
  semicolon : ';' ∉ name.toList

theorem parse_declaration {name value : String} (hn : PropertyName name) (hv : ';' ∉ value.toList) :
    parse (name ++ ":" ++ value) = [⟨name, .ofList (valueOf value.toList)⟩] := by
  have whole : Segments (name ++ ":" ++ value) [name ++ ":" ++ value] :=
    ⟨by simp, by simp [hn.semicolon, hv]⟩
  have written : (name ++ ":" ++ value).toList = name.toList ++ ':' :: value.toList := by simp
  have property : String.ofList ((Text.trimmed name.toList).map Char.toLower) = name := by
    rw [← Text.toList_trim, hn.trimmed]
    exact hn.lower
  rw [parse_of_segments whole, List.filterMap_cons_some (written ▸ ofSegment?_append hn.colon _),
    property, List.filterMap_nil]

/-- **Later declarations override**, and only their own property. Of two styles with a semicolon
between them the second answers for what it declares and the first for everything else. So a
declaration behind a style gives its property the value that it states, whatever colons are in that,
and leaves every other property as it was. Segments without a colon never matter. -/
theorem later_declarations_override :
    (∀ s t property, (Declares t property →
        (parse (s ++ ";" ++ t)).get? property = (parse t).get? property) ∧
      (¬ Declares t property →
        (parse (s ++ ";" ++ t)).get? property = (parse s).get? property)) ∧
    (∀ s property, ((parse s).get? property).isSome = true ↔ Declares s property) ∧
    (∀ s name value, PropertyName name → ';' ∉ value.toList →
      (∃ stated, Cleaned value.toList stated.toList ∧
        (parse (s ++ ";" ++ name ++ ":" ++ value)).get? name = some stated) ∧
      ∀ other, other ≠ name →
        (parse (s ++ ";" ++ name ++ ":" ++ value)).get? other = (parse s).get? other) ∧
    ∀ segments : List String, (∀ segment ∈ segments, ';' ∉ segment.toList) →
      parse (";".intercalate (segments.filter (':' ∈ ·.toList))) =
        parse (";".intercalate segments) := by
  refine ⟨fun s t property => ⟨fun ht => ?later, fun ht => ?earlier⟩, fun s property => isSome_get?_iff,
    fun s name value hn hv => ?declaration, fun segments => parse_filter⟩
  case later =>
    obtain ⟨value, hvalue⟩ := Option.isSome_iff_exists.1 (isSome_get?_iff.2 ht)
    rw [parse_append, get?_append, hvalue, Option.some_or]
  case earlier =>
    have none : (parse t).get? property = none := by
      rwa [← Option.not_isSome_iff_eq_none, isSome_get?_iff]
    rw [parse_append, get?_append, none, Option.none_or]
  case declaration =>
    have behind : parse (s ++ ";" ++ name ++ ":" ++ value) =
        parse s ++ [⟨name, .ofList (valueOf value.toList)⟩] := by
      rw [← parse_declaration hn hv, ← parse_append]
      simp only [String.append_assoc]
    rw [behind]
    refine ⟨⟨.ofList (valueOf value.toList), ?_, ?_⟩, fun other hne => ?_⟩
    · rw [String.toList_ofList]
      exact valueOf_eq_iff.1 rfl
    · rw [get?_append]
      simp [get?]
    · rw [get?_append]
      simp [get?, Ne.symm hne]

/-- A style with a background in upper case, a segment that is empty and one without a colon. -/
def bannerStyle : String := "BACKGROUND : red; border:0;; bold"

/-- Behind it an important background with colons in its value. -/
theorem later_declarations_override_banner :
    PropertyName "background" ∧ ';' ∉ " url(data:,a)  !important".toList ∧
    (parse (bannerStyle ++ ";" ++ "background" ++ ":" ++ " url(data:,a)  !important")).get?
      "background" = some "url(data:,a)" ∧
    (parse (bannerStyle ++ ";" ++ "background" ++ ":" ++ " url(data:,a)  !important")).get?
      "border" = (parse bannerStyle).get? "border" ∧
    (parse bannerStyle).get? "border" = some "0" ∧ Declares bannerStyle "background" := by
  have name : PropertyName "background" := ⟨by decide, by decide, by decide, by decide⟩
  have value : ';' ∉ " url(data:,a)  !important".toList := by decide
  obtain ⟨-, declares, behind, -⟩ := later_declarations_override
  obtain ⟨-, others⟩ := behind bannerStyle _ _ name value
  exact ⟨name, value, by decide, others "border" (by decide), by decide,
    (declares _ _).1 (by decide)⟩

end Style

end PageAudit
