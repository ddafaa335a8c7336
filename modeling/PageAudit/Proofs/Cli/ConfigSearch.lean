import Mathlib.Data.List.Basic
import PageAudit.Cli.ConfigSource

/-!
# Where a configuration is found

The search asks one directory after the other, and each of them for two names. What it comes to is said
here without an order of questions.

* `Path.AtOrAbove`: a directory is the start or stands above it. `mem_ancestors_iff`: these are the
  directories that the search asks, and it asks a deeper one first (`pairwise_ancestors`).
* `ConfigSource.Nearest`: of the directories that hold a configuration the deepest one.
* `ConfigSource.resolves_iff`: **a configuration comes from** where `Resolves` says, which is one place
  always.
-/

namespace PageAudit

namespace Path

/-- `directory` is `start` or stands above it. -/
structure AtOrAbove (directory start : Path) : Prop where
  absolute : directory.absolute = start.absolute
  parts : directory.parts <+: start.parts

def depth (p : Path) : Nat := p.parts.length

variable {directory start : Path}

theorem mem_ancestors_iff : directory ∈ start.ancestors ↔ directory.AtOrAbove start := by
  rw [ancestors, List.mem_map]
  constructor
  · rintro ⟨n, -, rfl⟩
    exact ⟨rfl, List.take_prefix n start.parts⟩
  · rintro ⟨habsolute, hparts⟩
    refine ⟨directory.depth, ?_, ?_⟩
    · rw [List.mem_reverse, List.mem_range, Nat.lt_succ_iff]
      exact hparts.length_le
    · rw [depth, ← List.prefix_iff_eq_take.1 hparts, ← habsolute]

/-- The deepest directory comes first, and every other one is less deep than the one before it. -/
theorem pairwise_ancestors (start : Path) :
    start.ancestors.Pairwise fun a b => b.depth < a.depth := by
  rw [ancestors, List.pairwise_map, List.pairwise_reverse]
  refine List.pairwise_lt_range.imp_of_mem fun {n m} _ hm hlt => ?_
  have hm := List.mem_range.1 hm
  simp only [depth, List.length_take]
  omega

end Path

namespace ConfigSource

/-- There is a file of one of the two names in the directory. -/
def Holds (isFile : Path → Bool) (directory : Path) : Prop :=
  isFile (directory.join "a11y-lint.toml") = true ∨ isFile (directory.join ".a11y-lint.toml") = true

/-- The configuration of a directory: the hidden one counts only if there is no other. -/
def preferred (isFile : Path → Bool) (directory : Path) : Path :=
  directory.join (if isFile (directory.join "a11y-lint.toml") then "a11y-lint.toml"
    else ".a11y-lint.toml")

/-- The deepest directory at or above `start` that holds a configuration. -/
structure Nearest (isFile : Path → Bool) (start directory : Path) : Prop where
  atOrAbove : directory.AtOrAbove start
  holds : Holds isFile directory
  deepest : ∀ d : Path, d.AtOrAbove start → Holds isFile d → d.depth ≤ directory.depth

/-- Where a configuration comes from. -/
inductive Resolves (isFile : Path → Bool) (start : Path) (explicit? : Option String)
    (globalDirectory? : Option Path) : ConfigSource → Prop
  /-- A path given by hand, whether there is a file or not. -/
  | explicit {path : String} : explicit? = some path →
    Resolves isFile start explicit? globalDirectory? (.explicit path)
  | project {directory : Path} : explicit? = none → Nearest isFile start directory →
    Resolves isFile start explicit? globalDirectory? (.project (preferred isFile directory))
  | global {directory : Path} : explicit? = none →
    (∀ d : Path, d.AtOrAbove start → ¬ Holds isFile d) → globalDirectory? = some directory →
    isFile (directory.join "config.toml") = true →
    Resolves isFile start explicit? globalDirectory? (.global (directory.join "config.toml"))
  | default : explicit? = none → (∀ d : Path, d.AtOrAbove start → ¬ Holds isFile d) →
    (∀ directory, globalDirectory? = some directory →
      isFile (directory.join "config.toml") = false) →
    Resolves isFile start explicit? globalDirectory? .default

section
variable {isFile : Path → Bool} {start directory path : Path}

/-! ## One directory -/

theorem inDirectory?_eq : inDirectory? isFile directory =
    if isFile (directory.join "a11y-lint.toml") then some (directory.join "a11y-lint.toml")
    else if isFile (directory.join ".a11y-lint.toml") then some (directory.join ".a11y-lint.toml")
    else none := by
  simp only [inDirectory?, projectNames, List.map_cons, List.map_nil, List.find?_cons,
    List.find?_nil]
  cases isFile (directory.join "a11y-lint.toml") <;>
    cases isFile (directory.join ".a11y-lint.toml") <;> rfl

theorem inDirectory?_eq_some_iff : inDirectory? isFile directory = some path ↔
    Holds isFile directory ∧ preferred isFile directory = path := by
  rw [inDirectory?_eq, Holds, preferred]
  by_cases plain : isFile (directory.join "a11y-lint.toml") = true
  · simp [plain]
  · by_cases hidden : isFile (directory.join ".a11y-lint.toml") = true <;> simp [plain, hidden]

theorem inDirectory?_eq_none_iff : inDirectory? isFile directory = none ↔ ¬ Holds isFile directory := by
  rw [Option.eq_none_iff_forall_ne_some]
  simp only [ne_eq, inDirectory?_eq_some_iff, not_and]
  exact ⟨fun h holds => h _ holds rfl, fun h _ holds => absurd holds h⟩

/-! ## All of them -/

/-- **The search ends at the nearest directory** that holds a configuration, with its preferred file. -/
theorem nearest?_eq_some_iff : nearest? isFile start = some path ↔
    ∃ directory, Nearest isFile start directory ∧ preferred isFile directory = path := by
  rw [nearest?, List.findSome?_eq_some_iff]
  constructor
  · rintro ⟨before, directory, after, split, found, passed⟩
    obtain ⟨holds, rfl⟩ := inDirectory?_eq_some_iff.1 found
    have ordered := start.pairwise_ancestors
    rw [split, List.pairwise_append, List.pairwise_cons] at ordered
    refine ⟨directory, ⟨Path.mem_ancestors_iff.1 (by simp [split]), holds, fun d hd hholds => ?_⟩, rfl⟩
    -- A deeper one was asked before and would have ended the search.
    have hd := Path.mem_ancestors_iff.2 hd
    rw [split, List.mem_append, List.mem_cons] at hd
    rcases hd with hd | rfl | hd
    · exact absurd hholds (inDirectory?_eq_none_iff.1 (passed d hd))
    · exact Nat.le_refl _
    · exact Nat.le_of_lt (ordered.2.1.1 d hd)
  · rintro ⟨directory, ⟨atOrAbove, holds, deepest⟩, rfl⟩
    obtain ⟨before, after, split⟩ := List.append_of_mem (Path.mem_ancestors_iff.2 atOrAbove)
    have ordered := start.pairwise_ancestors
    rw [split, List.pairwise_append] at ordered
    refine ⟨before, directory, after, split, inDirectory?_eq_some_iff.2 ⟨holds, rfl⟩, fun d hd => ?_⟩
    rw [inDirectory?_eq_none_iff]
    intro hholds
    have above : d.AtOrAbove start := Path.mem_ancestors_iff.1 (by simp [split, hd])
    have deeper : directory.depth < d.depth := ordered.2.2 d hd directory List.mem_cons_self
    exact absurd (deepest d above hholds) (Nat.not_le_of_lt deeper)

theorem nearest?_eq_none_iff : nearest? isFile start = none ↔
    ∀ d : Path, d.AtOrAbove start → ¬ Holds isFile d := by
  simp only [nearest?, List.findSome?_eq_none_iff, Path.mem_ancestors_iff, inDirectory?_eq_none_iff]

/-! ## The order of the places -/

variable {explicit? : Option String} {globalDirectory? : Option Path} {source : ConfigSource}

theorem resolves_find (isFile : Path → Bool) (start : Path) (explicit? : Option String)
    (globalDirectory? : Option Path) : Resolves isFile start explicit? globalDirectory?
      (find isFile start explicit? globalDirectory?) := by
  unfold find
  cases explicit? with
  | some path => exact .explicit rfl
  | none =>
    cases found : nearest? isFile start with
    | some path =>
      obtain ⟨directory, nearest, rfl⟩ := nearest?_eq_some_iff.1 found
      exact .project rfl nearest
    | none =>
      have none := nearest?_eq_none_iff.1 found
      cases globalDirectory? with
      | none => exact .default rfl none fun _ h => nomatch h
      | some directory =>
        dsimp only
        split
        case isTrue h => exact .global rfl none rfl h
        case isFalse h =>
          refine .default rfl none fun d hd => ?_
          obtain rfl := Option.some.inj hd
          exact eq_false_of_ne_true h

/-- There is no second place that a configuration could come from. -/
theorem Resolves.find_eq (h : Resolves isFile start explicit? globalDirectory? source) :
    find isFile start explicit? globalDirectory? = source := by
  unfold find
  cases h with
  | explicit hexplicit => simp only [hexplicit]
  | @project directory hexplicit nearest =>
    simp only [hexplicit, nearest?_eq_some_iff.2 ⟨directory, nearest, rfl⟩]
  | global hexplicit none hglobal hfile =>
    simp only [hexplicit, nearest?_eq_none_iff.2 none, hglobal]
    exact if_pos hfile
  | default hexplicit none hglobal =>
    simp only [hexplicit, nearest?_eq_none_iff.2 none]
    cases hdirectory : globalDirectory? with
    | none => rfl
    | some directory => exact if_neg (Bool.not_eq_true _ ▸ hglobal directory hdirectory)

end

/-- **A configuration comes from** one place always: the path given by hand, or else the deepest
directory at or above the start that holds one, or else the user's own directory, or else there is
none. -/
theorem resolves_iff (isFile : Path → Bool) (start : Path) (explicit? : Option String)
    (globalDirectory? : Option Path) (source : ConfigSource) :
    find isFile start explicit? globalDirectory? = source ↔
      Resolves isFile start explicit? globalDirectory? source := by
  constructor
  · rintro rfl
    exact resolves_find isFile start explicit? globalDirectory?
  · exact Resolves.find_eq

/-- A hidden file below comes before the other name above. -/
example : find (· ∈ [⟨true, ["a11y-lint.toml"]⟩, ⟨true, ["site", ".a11y-lint.toml"]⟩])
    ⟨true, ["site", "pages"]⟩ none none = .project ⟨true, ["site", ".a11y-lint.toml"]⟩ := by
  decide

end ConfigSource

end PageAudit
