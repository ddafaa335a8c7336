import PageAudit.Color.Rgb
import PageAudit.Proofs.Numeral.Decimal
import PageAudit.Proofs.Numeral.Hexadecimal

/-!
# Colours as they are written

* `Rgb.Writes`: the three notations of a colour, in lower case and without blanks around them.
* `Rgb.ofHex?_eq_some_iff`, `Rgb.ofArguments?_eq_some_iff`, `Rgb.ofName?_eq_some_iff`: each reader
  accepts its notation. A text begins in the way of one notation only, so together they accept all of
  them and nothing else (`Rgb.parse?_eq_some_iff`).
* `Rgb.readHexBytes?`: hex digits read from bytes, where a cut inside a character or a number out of
  range would be a failure. There is none (`Rgb.readHexBytes?_eq`).
* `Rgb.colours_as_written`: all of this for every text, whatever its case and the blanks around it.
-/

namespace PageAudit

namespace Rgb

/-! ## Notations -/

/-- A decimal number of one byte, with blanks around it. -/
def Channel (cs : List Char) (n : UInt8) : Prop :=
  ∃ t, Text.Trims cs t ∧ Numeral.Spells t n.toNat

/-- The colours that have a name. -/
def names : List (String × Rgb) :=
  [("black", ⟨0, 0, 0⟩), ("white", ⟨255, 255, 255⟩), ("red", ⟨255, 0, 0⟩), ("green", ⟨0, 128, 0⟩),
   ("blue", ⟨0, 0, 255⟩), ("yellow", ⟨255, 255, 0⟩), ("gray", ⟨128, 128, 128⟩),
   ("grey", ⟨128, 128, 128⟩)]

/-- The texts in lower case that write a colour. -/
inductive Writes : List Char → Rgb → Prop
  | hex {a b c d e f : Char} {color : Rgb} : Numeral.BytePair a b color.red →
      Numeral.BytePair c d color.green → Numeral.BytePair e f color.blue →
      Writes ['#', a, b, c, d, e, f] color
  | function {x y z : List Char} {color : Rgb} : Channel x color.red → Channel y color.green →
      Channel z color.blue → Writes ("rgb(".toList ++ (x ++ ',' :: y ++ ',' :: z ++ [')'])) color
  | name {name : String} {color : Rgb} : (name, color) ∈ names → Writes name.toList color

/-! ### The beginning of a text tells its notation -/

theorem names_begin : ∀ entry ∈ names, entry.1.toList.head? ≠ some '#' ∧
    entry.1.toList.take 4 ≠ "rgb(".toList := by decide

section
variable {cs : List Char} {color : Rgb}

theorem writes_hash_iff : Writes ('#' :: cs) color ↔
    ∃ a b c d e f, cs = [a, b, c, d, e, f] ∧ Numeral.BytePair a b color.red ∧
      Numeral.BytePair c d color.green ∧ Numeral.BytePair e f color.blue := by
  constructor
  · intro h
    generalize hw : '#' :: cs = written at h
    cases h with
    | hex hr hg hb => exact ⟨_, _, _, _, _, _, (List.cons.inj hw).2, hr, hg, hb⟩
    | function => exact absurd (List.cons.inj hw).1 (by decide)
    | name hm => exact absurd (congrArg List.head? hw.symm) (names_begin _ hm).1
  · rintro ⟨a, b, c, d, e, f, rfl, hr, hg, hb⟩
    exact .hex hr hg hb

theorem writes_function_iff : Writes ('r' :: 'g' :: 'b' :: '(' :: cs) color ↔
    ∃ x y z, cs = x ++ ',' :: y ++ ',' :: z ++ [')'] ∧ Channel x color.red ∧
      Channel y color.green ∧ Channel z color.blue := by
  constructor
  · intro h
    generalize hw : 'r' :: 'g' :: 'b' :: '(' :: cs = written at h
    cases h with
    | hex => exact absurd (List.cons.inj hw).1 (by decide)
    | function hx hy hz =>
      have hw : "rgb(".toList ++ cs = "rgb(".toList ++ _ := hw
      exact ⟨_, _, _, List.append_cancel_left hw, hx, hy, hz⟩
    | name hm => exact absurd (congrArg (List.take 4) hw.symm) (names_begin _ hm).2
  · rintro ⟨x, y, z, rfl, hx, hy, hz⟩
    exact .function hx hy hz

theorem writes_name_iff (hash : ∀ rest, cs ≠ '#' :: rest)
    (function : ∀ rest, cs ≠ 'r' :: 'g' :: 'b' :: '(' :: rest) :
    Writes cs color ↔ (String.ofList cs, color) ∈ names := by
  constructor
  · intro h
    cases h with
    | hex => exact absurd rfl (hash _)
    | function => exact absurd rfl (function _)
    | name hm => rwa [String.ofList_toList]
  · intro hm
    have h := Writes.name hm
    rwa [String.toList_ofList] at h

end

/-! ## Readers -/

theorem ofHex?_eq_some_iff {cs : List Char} {color : Rgb} : ofHex? cs = some color ↔
    ∃ a b c d e f, cs = [a, b, c, d, e, f] ∧ Numeral.BytePair a.toLower b.toLower color.red ∧
      Numeral.BytePair c.toLower d.toLower color.green ∧
      Numeral.BytePair e.toLower f.toLower color.blue := by
  fun_cases ofHex? cs
  case case1 a b c d e f =>
    simp only [← Numeral.natural?_pair_eq_some_iff, Option.map_eq_some_iff, bind,
      Option.bind_eq_some_iff, Option.some.injEq]
    constructor
    · rintro ⟨red, hr, green, hg, blue, hb, rfl⟩
      exact ⟨a, b, c, d, e, f, rfl, ⟨red, hr, rfl⟩, ⟨green, hg, rfl⟩, ⟨blue, hb, rfl⟩⟩
    · rintro ⟨_, _, _, _, _, _, hcs, ⟨red, hr, hred⟩, ⟨green, hg, hgreen⟩, ⟨blue, hb, hblue⟩⟩
      cases hcs
      exact ⟨red, hr, green, hg, blue, hb, by rw [hred, hgreen, hblue]⟩
  case case2 hcs =>
    constructor
    · intro h
      cases h
    · rintro ⟨a, b, c, d, e, f, rfl, -⟩
      exact absurd rfl (hcs a b c d e f)

theorem channel?_eq_some_iff {cs : List Char} {n : UInt8} : channel? cs = some n ↔ Channel cs n := by
  have trims := Text.trims_trimmed cs
  constructor
  · intro h
    obtain ⟨m, hm, rfl⟩ := Option.map_eq_some_iff.1 h
    obtain ⟨spells, hle⟩ := Numeral.upTo?_eq_some_iff.1 hm
    refine ⟨_, trims, ?_⟩
    rwa [UInt8.toNat_ofNat_of_lt' (show m < 256 by omega)]
  · rintro ⟨t, ht, spells⟩
    have hn : n.toNat < 256 := n.toNat_lt
    rw [channel?, ht.trimmed_eq, Numeral.upTo?_eq_some_iff.2 ⟨spells, by omega⟩, Option.map_some,
      UInt8.ofNat_toNat]

theorem Channel.not_mem_comma {cs : List Char} {n : UInt8} (h : Channel cs n) : ',' ∉ cs := by
  obtain ⟨t, trims, ds, hds, -, digits, -⟩ := h
  obtain ⟨before, after, rfl, hb, ha⟩ := trims.around
  intro hm
  rcases List.mem_append.1 hm with hm | hm
  · rcases List.mem_append.1 hm with hm | hm
    · exact absurd (hb _ hm) (by decide)
    · rcases hds with rfl | rfl
      · exact absurd (digits _ hm) (by decide)
      · rcases List.mem_cons.1 hm with hm | hm
        · exact absurd hm (by decide)
        · exact absurd (digits _ hm) (by decide)
  · exact absurd (ha _ hm) (by decide)

theorem ofArguments?_eq_some_iff {cs : List Char} {color : Rgb} : ofArguments? cs = some color ↔
    ∃ x y z, cs = x ++ ',' :: y ++ ',' :: z ++ [')'] ∧ Channel x color.red ∧
      Channel y color.green ∧ Channel z color.blue := by
  unfold ofArguments?
  constructor
  · intro h
    split at h
    case isFalse => cases h
    case isTrue hlast =>
      obtain ⟨args, rfl⟩ := List.getLast?_eq_some_iff.1 hlast
      rw [List.dropLast_concat] at h
      split at h
      case h_2 => cases h
      case h_1 red green blue hparts =>
        obtain ⟨x, rest, hxs, hx, hrest⟩ := List.map_eq_cons_iff.1 hparts
        obtain ⟨y, rest, rfl, hy, hrest⟩ := List.map_eq_cons_iff.1 hrest
        obtain ⟨z, rest, rfl, hz, hrest⟩ := List.map_eq_cons_iff.1 hrest
        rw [List.map_eq_nil_iff] at hrest
        subst hrest
        cases h
        obtain ⟨-, -, hargs⟩ := Text.partsOf_eq_iff.1 hxs
        refine ⟨x, y, z, ?_, channel?_eq_some_iff.1 hx, channel?_eq_some_iff.1 hy,
          channel?_eq_some_iff.1 hz⟩
        rw [hargs]
        simp
  · rintro ⟨x, y, z, rfl, hx, hy, hz⟩
    have parts : Text.partsOf (· == ',') (x ++ ',' :: y ++ ',' :: z) = [x, y, z] := by
      refine Text.partsOf_eq_iff.2 ⟨List.cons_ne_nil _ _, ?_, by simp⟩
      simpa using ⟨hx.not_mem_comma, hy.not_mem_comma, hz.not_mem_comma⟩
    have channels : [x, y, z].map channel? = [some color.red, some color.green, some color.blue] := by
      simp [channel?_eq_some_iff.2 hx, channel?_eq_some_iff.2 hy, channel?_eq_some_iff.2 hz]
    rw [if_pos List.getLast?_concat, List.dropLast_concat, parts, channels]

theorem ofName?_eq_some_iff {s : String} {color : Rgb} :
    ofName? s = some color ↔ (s, color) ∈ names := by
  constructor
  · intro h
    unfold ofName? at h
    split at h
    case h_9 => cases h
    all_goals
      cases h
      decide
  · intro h
    have each : ∀ entry ∈ names, ofName? entry.1 = some entry.2 := by decide
    exact each (s, color) h

/-- The text that is read: no blanks around it, and in lower case. -/
theorem toList_lower_trim (s : String) :
    (Text.lower (Text.trim s)).toList = (Text.trimmed s.toList).map Char.toLower := by
  rw [Text.lower, String.toList_ofList, Text.toList_trim]

theorem toLower_of_mem_lower {s : String} : ∀ c ∈ (Text.lower s).toList, c.toLower = c := by
  intro c hc
  rw [Text.lower, String.toList_ofList] at hc
  obtain ⟨x, -, rfl⟩ := List.mem_map.1 hc
  exact Text.toLower_toLower x

/-- **A text is read** as the colour that it writes. -/
theorem parse?_eq_some_iff {s : String} {color : Rgb} :
    parse? s = some color ↔ Writes (Text.lower (Text.trim s)).toList color := by
  have lower := toLower_of_mem_lower (s := Text.trim s)
  unfold parse?
  rw [← toList_lower_trim]
  generalize (Text.lower (Text.trim s)).toList = cs at lower
  dsimp only
  split
  case h_1 digits =>
    -- the digits are in lower case already
    rw [ofHex?_eq_some_iff, writes_hash_iff]
    refine exists_congr fun a => exists_congr fun b => exists_congr fun c => exists_congr fun d =>
      exists_congr fun e => exists_congr fun f => and_congr_right fun hds => ?_
    subst hds
    simp only [List.forall_mem_cons] at lower
    obtain ⟨-, ha, hb, hc, hd, he, hf, -⟩ := lower
    rw [ha, hb, hc, hd, he, hf]
  case h_2 => rw [ofArguments?_eq_some_iff, writes_function_iff]
  case h_3 hash function => rw [ofName?_eq_some_iff, writes_name_iff hash function]

theorem parse?_of_hash {s : String} {digits : List Char}
    (h : (Text.lower (Text.trim s)).toList = '#' :: digits) : parse? s = ofHex? digits := by
  rw [parse?, ← toList_lower_trim, h]
  rfl

/-! ## Reading bytes -/

theorem exists_pos? {s a b : String} (h : s = a ++ b) :
    ∃ p, s.pos? a.rawEndPos = some p ∧ p.Splits a b := by
  have valid : a.rawEndPos.IsValid s := String.Pos.Raw.isValid_iff_exists_append.2 ⟨a, b, h, rfl⟩
  refine ⟨s.pos a.rawEndPos valid, ?_, ⟨h, String.offset_pos⟩⟩
  rw [String.pos?, String.Slice.pos?,
    dif_pos (String.Pos.Raw.isValidForSlice_eq_true_iff.2 valid.toSlice)]
  rfl

/-- The text between two bytes; nothing if a character is cut by either, or if there are fewer. -/
def sliceBytes? (s : String) (start stop : Nat) : Option String :=
  (s.pos? ⟨start⟩).bind fun p => (s.pos? ⟨stop⟩).bind fun q => (s.slice? p q).map (·.copy)

theorem sliceBytes?_append (a b c : String) :
    sliceBytes? (a ++ b ++ c) a.utf8ByteSize (a ++ b).utf8ByteSize = some b := by
  obtain ⟨p, hp, first⟩ := exists_pos? (String.append_assoc : a ++ b ++ c = a ++ (b ++ c))
  obtain ⟨q, hq, second⟩ := exists_pos? (rfl : a ++ b ++ c = a ++ b ++ c)
  obtain ⟨hle, hb⟩ := String.copy_slice_eq_iff_splits.2 ⟨a, c, first, second⟩
  have hp : (a ++ b ++ c).pos? ⟨a.utf8ByteSize⟩ = some p := hp
  have hq : (a ++ b ++ c).pos? ⟨(a ++ b).utf8ByteSize⟩ = some q := hq
  rw [sliceBytes?, hp, hq, Option.bind_some, Option.bind_some, String.slice?, dif_pos hle,
    Option.map_some, hb]

/-- A number of one byte in base sixteen, after at most one plus sign. -/
def hexByte? (s : String) : Option UInt8 :=
  let digits := match s.toList with
    | '+' :: cs => cs
    | cs => cs
  ((Numeral.natural? 16 digits).filter (· ≤ 255)).map .ofNat

/-- The colour of six hex digits, cut at bytes and read in pairs. It is missing altogether if a cut or
a number fails. -/
def readHexBytes? (s : String) : Option (Option Rgb) :=
  if s.utf8ByteSize ≠ 6 || !s.toList.all (Numeral.isDigit 16) then some none
  else do
    let red ← (sliceBytes? s 0 2).bind hexByte?
    let green ← (sliceBytes? s 2 4).bind hexByte?
    let blue ← (sliceBytes? s 4 6).bind hexByte?
    some (some ⟨red, green, blue⟩)

/-- Hex digits are one byte each. -/
theorem utf8ByteSize_of_isDigit {cs : List Char} (h : ∀ c ∈ cs, Numeral.isDigit 16 c = true) :
    (String.ofList cs).utf8ByteSize = cs.length := by
  induction cs with
  | nil => rfl
  | cons c cs ih =>
    obtain ⟨hc, hcs⟩ := List.forall_mem_cons.1 h
    have hc : c.utf8Size = 1 := by
      have ascii : c.toNat < 128 := Numeral.isAscii_of_isDigit hc
      exact Char.utf8Size_eq_one_iff.2 (Nat.le_of_lt_succ ascii)
    rw [String.ofList_cons, String.utf8ByteSize_append, String.utf8ByteSize_singleton, ih hcs, hc,
      List.length_cons]
    omega

theorem sliceBytes?_of_isDigit {a b c : List Char}
    (ha : ∀ x ∈ a, Numeral.isDigit 16 x = true) (hb : ∀ x ∈ b, Numeral.isDigit 16 x = true) :
    sliceBytes? (.ofList (a ++ b ++ c)) a.length (a ++ b).length = some (.ofList b) := by
  have h := sliceBytes?_append (.ofList a) (.ofList b) (.ofList c)
  rwa [← String.ofList_append, ← String.ofList_append, utf8ByteSize_of_isDigit ha,
    utf8ByteSize_of_isDigit (List.forall_mem_append.2 ⟨ha, hb⟩)] at h

/-- Two hex digits are always a number, and never too large for a byte. -/
theorem exists_hexByte? {a b : Char} (ha : Numeral.isDigit 16 a = true)
    (hb : Numeral.isDigit 16 b = true) :
    ∃ n, Numeral.natural? 16 [a, b] = some n ∧ hexByte? (.ofList [a, b]) = some (.ofNat n) := by
  obtain ⟨i, hi⟩ := Option.isSome_iff_exists.1 ha
  obtain ⟨j, hj⟩ := Option.isSome_iff_exists.1 hb
  have pair : Numeral.natural? 16 [a, b] = some (16 * i + j) := by
    rw [Numeral.natural?_pair, hi, hj]
    rfl
  have hi16 := Numeral.lt_of_getElem?_hexAlphabet (Numeral.digit?_eq_some_iff.1 hi)
  have hj16 := Numeral.lt_of_getElem?_hexAlphabet (Numeral.digit?_eq_some_iff.1 hj)
  refine ⟨16 * i + j, pair, ?_⟩
  unfold hexByte?
  rw [String.toList_ofList]
  dsimp only
  split
  case h_1 heq =>
    -- a plus sign is no digit
    cases heq
    exact absurd ha (by decide)
  case h_2 =>
    rw [pair, Option.filter_some, if_pos (decide_eq_true (by omega)), Option.map_some]

theorem isDigit_of_ofHex? {cs : List Char} {color : Rgb} (h : ofHex? cs = some color) :
    cs.length = 6 ∧ ∀ c ∈ cs, Numeral.isDigit 16 c = true := by
  have digits : ∀ {a b : Char} {n : UInt8}, Numeral.BytePair a.toLower b.toLower n →
      Numeral.isDigit 16 a = true ∧ Numeral.isDigit 16 b = true := by
    rintro a b n ⟨i, j, hi, hj, -⟩
    rw [Numeral.isDigit, Numeral.isDigit, Numeral.digit?_eq_some_iff.2 hi,
      Numeral.digit?_eq_some_iff.2 hj]
    exact ⟨rfl, rfl⟩
  obtain ⟨a, b, c, d, e, f, rfl, hr, hg, hb⟩ := ofHex?_eq_some_iff.1 h
  simp [digits hr, digits hg, digits hb]

theorem ofHex?_eq_none {cs : List Char}
    (h : ¬ (cs.length = 6 ∧ ∀ c ∈ cs, Numeral.isDigit 16 c = true)) : ofHex? cs = none :=
  Option.eq_none_iff_forall_ne_some.2 fun _ hc => h (isDigit_of_ofHex? hc)

theorem readHexBytes?_digits {a b c d e f : Char}
    (digits : ∀ x ∈ [a, b, c, d, e, f], Numeral.isDigit 16 x = true) :
    readHexBytes? (.ofList [a, b, c, d, e, f]) = some (ofHex? [a, b, c, d, e, f]) := by
  have six : (String.ofList [a, b, c, d, e, f]).utf8ByteSize = 6 := utf8ByteSize_of_isDigit digits
  have all := List.all_eq_true.2 digits
  simp only [List.forall_mem_cons] at digits
  obtain ⟨ha, hb, hc, hd, he, hf, -⟩ := digits
  have first : sliceBytes? (.ofList [a, b, c, d, e, f]) 0 2 = some (.ofList [a, b]) :=
    sliceBytes?_of_isDigit (a := []) (b := [a, b]) (by simp) (by simp [ha, hb])
  have second : sliceBytes? (.ofList [a, b, c, d, e, f]) 2 4 = some (.ofList [c, d]) :=
    sliceBytes?_of_isDigit (a := [a, b]) (b := [c, d]) (by simp [ha, hb]) (by simp [hc, hd])
  have third : sliceBytes? (.ofList [a, b, c, d, e, f]) 4 6 = some (.ofList [e, f]) :=
    sliceBytes?_of_isDigit (a := [a, b, c, d]) (b := [e, f]) (c := [])
      (by simp [ha, hb, hc, hd]) (by simp [he, hf])
  obtain ⟨red, hred, hr⟩ := exists_hexByte? ha hb
  obtain ⟨green, hgreen, hg⟩ := exists_hexByte? hc hd
  obtain ⟨blue, hblue, hb⟩ := exists_hexByte? he hf
  rw [readHexBytes?, String.toList_ofList, all, six, if_neg (by decide), first, second, third,
    ofHex?, hred, hgreen, hblue, Option.bind_some, Option.bind_some, Option.bind_some, hr, hg, hb]
  rfl

/-- **No cut and no number fails** where hex digits are read from bytes. -/
theorem readHexBytes?_eq (cs : List Char) : readHexBytes? (.ofList cs) = some (ofHex? cs) := by
  by_cases h : cs.length = 6 ∧ ∀ c ∈ cs, Numeral.isDigit 16 c = true
  · obtain ⟨six, digits⟩ := h
    match cs, six with
    | [_, _, _, _, _, _], _ => exact readHexBytes?_digits digits
  · rw [ofHex?_eq_none h, readHexBytes?, String.toList_ofList, if_pos]
    by_contra hn
    obtain ⟨size, all⟩ : (String.ofList cs).utf8ByteSize = 6 ∧ cs.all (Numeral.isDigit 16) = true := by
      simpa using hn
    have digits := List.all_eq_true.1 all
    exact h ⟨(utf8ByteSize_of_isDigit digits).symm.trans size, digits⟩

/-! ## Decoration -/

theorem parse?_congr {s t : String}
    (h : Text.trimmed (s.toList.map Char.toLower) = Text.trimmed (t.toList.map Char.toLower)) :
    parse? s = parse? t := by
  rw [Text.trimmed_map_toLower, Text.trimmed_map_toLower] at h
  rw [parse?, parse?, h]

/-- Letter case and blanks around a text do not change its colour. -/
theorem parse?_decorated {s t before after : String} (same : Text.sameName s t = true)
    (hb : Text.isBlankText before = true) (ha : Text.isBlankText after = true) :
    parse? (before ++ t ++ after) = parse? s := by
  have same : s.toList.map Char.toLower = t.toList.map Char.toLower :=
    String.ofList_injective (eq_of_beq same)
  have blank : ∀ {cs : String}, Text.isBlankText cs = true →
      ∀ c ∈ cs.toList.map Char.toLower, Text.isBlank c = true := by
    intro cs hcs
    simpa [Text.isBlankText, Text.isBlank_toLower] using hcs
  refine parse?_congr ?_
  rw [String.toList_append, String.toList_append, List.map_append, List.map_append,
    Text.trimmed_pad (blank hb) (blank ha), same]

theorem hexAlphabet_plain : ∀ c ∈ Numeral.hexAlphabet, c.toLower = c ∧ Text.isBlank c = false := by
  have all : (Numeral.hexAlphabet.all fun c => c.toLower = c && !Text.isBlank c) = true := by decide
  simpa using all

/-- A colour's own text is read as that colour. -/
theorem parse?_text (color : Rgb) : parse? color.text = some color := by
  obtain ⟨a, b, hr, red⟩ := Numeral.bytePair_hex color.red
  obtain ⟨c, d, hg, green⟩ := Numeral.bytePair_hex color.green
  obtain ⟨e, f, hb, blue⟩ := Numeral.bytePair_hex color.blue
  have text : color.text.toList = ['#', a, b, c, d, e, f] := by
    rw [Rgb.text, String.toList_ofList]
    simp [hr, hg, hb]
  have plain : ∀ {x y : Char} {n : UInt8}, Numeral.BytePair x y n →
      (x.toLower = x ∧ Text.isBlank x = false) ∧ y.toLower = y ∧ Text.isBlank y = false := by
    rintro x y n ⟨i, j, hx, hy, -⟩
    exact ⟨hexAlphabet_plain x (List.mem_of_getElem? hx),
      hexAlphabet_plain y (List.mem_of_getElem? hy)⟩
  obtain ⟨⟨ha, -⟩, hb, -⟩ := plain red
  obtain ⟨⟨hc, -⟩, hd, -⟩ := plain green
  obtain ⟨⟨he, -⟩, hf, last⟩ := plain blue
  have trimmed : Text.trimmed ['#', a, b, c, d, e, f] = ['#', a, b, c, d, e, f] := by
    refine Text.trimmed_eq_iff.2 ⟨⟨[], [], by simp⟩, ?_, ?_⟩
    · intro x hx
      cases hx
      decide
    · intro x hx
      cases hx
      exact last
  have lower : ['#', a, b, c, d, e, f].map Char.toLower = ['#', a, b, c, d, e, f] := by
    simp [ha, hb, hc, hd, he, hf]
  rw [parse?_eq_some_iff, toList_lower_trim, text, trimmed, lower]
  exact .hex red green blue

/-- **Colours** are read from the texts that write them, and from no others, whatever the case of the
letters and the blanks around. Where hex digits are read from bytes nothing fails, also if the text
goes on beyond ASCII. So every colour is read back from its own text, however decorated. -/
theorem colours_as_written (s : String) :
    (∀ color, parse? s = some color ↔ Writes (Text.lower (Text.trim s)).toList color) ∧
    (parse? s = none ↔ ∀ color, ¬ Writes (Text.lower (Text.trim s)).toList color) ∧
    (∀ digits, (Text.lower (Text.trim s)).toList = '#' :: digits →
      readHexBytes? (.ofList digits) = some (parse? s) ∧
      ((∃ c ∈ digits, ¬ Text.IsAscii c) → parse? s = none)) ∧
    ∀ before after, Text.isBlankText before = true → Text.isBlankText after = true →
      (∀ t, Text.sameName s t = true → parse? (before ++ t ++ after) = parse? s) ∧
      ∀ color : Rgb, Text.sameName color.text s = true →
        parse? (before ++ s ++ after) = some color := by
  refine ⟨fun color => parse?_eq_some_iff, ?_, ?_, ?_⟩
  · simp only [Option.eq_none_iff_forall_ne_some, ne_eq, parse?_eq_some_iff]
  · intro digits hd
    rw [parse?_of_hash hd]
    refine ⟨readHexBytes?_eq digits, fun beyond => ?_⟩
    obtain ⟨c, hc, hn⟩ := beyond
    refine Option.eq_none_iff_forall_ne_some.2 fun color h => hn ?_
    exact Numeral.isAscii_of_isDigit ((isDigit_of_ofHex? h).2 c hc)
  · intro before after hb ha
    refine ⟨fun t same => parse?_decorated same hb ha, fun color same => ?_⟩
    rw [parse?_decorated same hb ha, parse?_text]

/-- Decorated hex digits, and a text of six bytes but five characters after the number sign. -/
theorem colours_as_written_spring :
    parse? ("\u2003" ++ "#00Ff7f" ++ "\n") = parse? "#00fF7F" ∧
    parse? ("\u2003" ++ "#00fF7F" ++ "\n") = some ⟨0, 255, 127⟩ ∧
    readHexBytes? "00ff7f" = some (parse? "#00fF7F") ∧
    parse? " #12é45" = none := by
  obtain ⟨-, -, bytes, decorated⟩ := colours_as_written "#00fF7F"
  obtain ⟨cases, color⟩ := decorated "\u2003" "\n" (by decide) (by decide)
  obtain ⟨-, -, accented, -⟩ := colours_as_written " #12é45"
  have own : Text.sameName (⟨0, 255, 127⟩ : Rgb).text "#00fF7F" = true := by decide +kernel
  exact ⟨cases "#00Ff7f" (by decide), color _ own,
    (bytes "00ff7f".toList (by decide)).1,
    (accented "12é45".toList (by decide)).2 ⟨'é', by decide, by decide⟩⟩

end Rgb

end PageAudit
