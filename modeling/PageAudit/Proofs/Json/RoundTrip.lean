import PageAudit.Json.Printer
import PageAudit.Json.Reader

/-!
# Reading JSON that was written

The reader takes a value off the front of the text that the writer makes of it, whatever follows
(`ReadBack`). This holds of every value made of texts, lists and records (`Textual.readBack`), by
induction on how it is made:

* `string?_quoted`: a quoted text is read back, by its characters (`pieces?_escapeChar`).
* `items?_pretty`, `members?_pretty`: items and members are read off in turn, up to the bracket. The size
  that the reader is given shrinks by one for each, and the text by at least as much.
* `parse?_pretty`: the whole text spells the value.
-/

namespace PageAudit.Json

/-! ## Strings -/

/-- A piece in front of others. -/
def Piece.before (p : Piece) : List Piece × List Char → List Piece × List Char
  | (ps, rest) => (p :: ps, rest)

theorem bind_before (p : Piece) (read : Option (List Piece × List Char)) :
    (do let (ps, rest) ← read; some (p :: ps, rest)) = read.map p.before := by
  cases read <;> rfl

theorem pieces?_short {letter c : Char} (h : shortEscape? letter = some c) (cs : List Char) :
    pieces? ('\\' :: letter :: cs) = (pieces? cs).map (Piece.char c).before := by
  have hu : letter ≠ 'u' := by
    rintro rfl
    cases h
  rw [pieces?, h]
  · exact bind_before _ _
  · exact fun _ _ _ _ _ h => absurd h hu

/-- The hex digits of the control characters. -/
theorem natural?_hex : ∀ n < 0x20, Numeral.natural? 16 (Numeral.hex n 4) = some n := by
  decide

theorem ofCode_of_lt {c : Char} (h : c.toNat < 0x20) : Piece.ofCode c.toNat = .char c := by
  have hhigh : ¬ 0xD800 ≤ c.toNat := by omega
  have hlow : ¬ 0xDC00 ≤ c.toNat := by omega
  simp [Piece.ofCode, hhigh, hlow]

theorem pieces?_hex {c : Char} (h : c.toNat < 0x20) (cs : List Char) :
    pieces? ('\\' :: 'u' :: Numeral.hex c.toNat 4 ++ cs) =
      (pieces? cs).map (Piece.char c).before := by
  have hn := natural?_hex c.toNat h
  simp only [Numeral.hex] at hn ⊢
  simp only [List.cons_append, List.nil_append]
  rw [pieces?, hn, ← ofCode_of_lt h]
  exact bind_before _ _

theorem pieces?_plain {c : Char} (hq : c ≠ '"') (hb : c ≠ '\\') (h : ¬ c.toNat < 0x20)
    (cs : List Char) : pieces? (c :: cs) = (pieces? cs).map (Piece.char c).before := by
  rw [pieces?, if_neg (by simp [h, hb])]
  · exact bind_before _ _
  · exact hq
  · rintro _ _ _ _ _ rfl
    exact absurd rfl hb
  · rintro _ _ rfl
    exact absurd rfl hb

/-- A character that was escaped is read back. -/
theorem pieces?_escapeChar (c : Char) (cs : List Char) :
    pieces? (escapeChar c ++ cs) = (pieces? cs).map (Piece.char c).before := by
  have named : ∀ {c d : Char}, c.toNat = d.toNat → c = d := fun h => Char.toNat_inj.1 h
  unfold escapeChar
  split
  · next h => subst h; exact pieces?_short rfl cs
  split
  · next h => subst h; exact pieces?_short rfl cs
  split
  · next h => exact named (d := '\x08') h ▸ pieces?_short rfl cs
  split
  · next h => exact named (d := '\t') h ▸ pieces?_short rfl cs
  split
  · next h => exact named (d := '\n') h ▸ pieces?_short rfl cs
  split
  · next h => exact named (d := '\x0c') h ▸ pieces?_short rfl cs
  split
  · next h => exact named (d := '\r') h ▸ pieces?_short rfl cs
  split
  · next h => exact pieces?_hex h cs
  · next hq hb _ _ _ _ _ h => exact pieces?_plain hq hb h cs

theorem pieces?_escaped (s rest : List Char) :
    pieces? (s.flatMap escapeChar ++ '"' :: rest) = some (s.map .char, rest) := by
  induction s with
  | nil => rfl
  | cons c s ih =>
    rw [List.flatMap_cons, List.append_assoc, pieces?_escapeChar, ih]
    rfl

theorem join?_char (s : List Char) : Piece.join? (s.map .char) = some s := by
  induction s with
  | nil => rfl
  | cons c s ih => rw [List.map_cons, Piece.join?, ih, Option.map_some]

/-- **A text that was quoted** is read back, whatever its characters. -/
theorem string?_quoted (s : String) (rest : List Char) :
    string? (s.toList.flatMap escapeChar ++ '"' :: rest) = some (some s, rest) := by
  rw [string?, pieces?_escaped]
  simp [join?_char]

/-! ## Blanks -/

theorem isSpace_newline (level : Nat) : ∀ c ∈ newline level, isSpace c = true := by
  intro c hc
  rcases List.mem_cons.1 hc with rfl | hc
  · rfl
  · rw [List.eq_of_mem_replicate hc]
    rfl

theorem skipSpace_newline (level : Nat) (cs : List Char) :
    skipSpace (newline level ++ cs) = skipSpace cs := by
  unfold skipSpace
  rw [List.dropWhile_append_of_pos (isSpace_newline level)]

theorem skipSpace_cons {c : Char} (h : isSpace c = false) (cs : List Char) :
    skipSpace (c :: cs) = c :: cs := by
  simp [skipSpace, h]

/-! ## Values -/

/-- A value made of texts, lists and records. -/
inductive Textual : Json → Prop
  | str (s : String) : Textual (.str s)
  | array {items : List Json} (h : ∀ x ∈ items, Textual x) : Textual (.array items)
  | record {members : List (String × Json)} (h : ∀ m ∈ members, Textual m.2) :
    Textual (.record members)

/-- The value is read off the front of its text, whatever follows it. -/
def ReadBack (v : Json) : Prop :=
  ∀ level size rest, (v.pretty level).length ≤ size →
    value? size (v.pretty level ++ rest) = some (v, rest)

theorem value?_newline (size level : Nat) (cs : List Char) :
    value? size (newline level ++ cs) = value? size cs := by
  cases size with
  | zero => rfl
  | succ size => rw [value?, value?, skipSpace_newline]

theorem value?_space (size : Nat) (cs : List Char) : value? size (' ' :: cs) = value? size cs := by
  cases size <;> rfl

theorem items?_newline (size level : Nat) (cs : List Char) :
    items? size (newline level ++ cs) = items? size cs := by
  cases size with
  | zero => rfl
  | succ size => rw [items?, items?, value?_newline]

theorem members?_newline (size level : Nat) (cs : List Char) :
    members? size (newline level ++ cs) = members? size cs := by
  cases size with
  | zero => rfl
  | succ size => rw [members?, members?, skipSpace_newline]

/-- What a written value begins with. -/
theorem Textual.head {v : Json} (h : v.Textual) (level : Nat) :
    ∃ c cs, v.pretty level = c :: cs ∧ isSpace c = false ∧ c ≠ ']' := by
  cases h with
  | str s => exact ⟨'"', _, rfl, rfl, by decide⟩
  | @array items => cases items <;> exact ⟨'[', _, rfl, rfl, by decide⟩
  | @record members => cases members <;> exact ⟨'\x7b', _, rfl, rfl, by decide⟩

theorem readBack_str (s : String) : ReadBack (.str s) := by
  intro level size rest hs
  cases size with
  | zero => simp [str, pretty, quoted] at hs
  | succ size =>
    have h : pretty level (.str s) ++ rest =
        '"' :: (s.toList.flatMap escapeChar ++ '"' :: rest) := by
      simp [str, pretty, quoted]
    rw [h, value?, skipSpace_cons rfl]
    simp only [string?_quoted]
    rfl

/-- Items are read off in turn, up to the closing bracket. -/
theorem items?_pretty {xs : List Json} : ∀ {x : Json}, (∀ y ∈ x :: xs, ReadBack y) →
    ∀ (outer level size : Nat) (rest : List Char),
      (pretty level x ++ prettyItems level xs).length < size →
      items? size (pretty level x ++ (prettyItems level xs ++ (newline outer ++ ']' :: rest))) =
        some (x :: xs, rest) := by
  -- on the items after `x`, for every size that is larger than their text
  induction xs with
  | nil =>
    intro x h outer level size rest hs
    obtain _ | size := size
    · omega
    have hx : (pretty level x).length ≤ size := by
      rw [List.length_append] at hs
      omega
    rw [items?, h x (by simp) level size _ hx, Option.bind_some]
    simp only [prettyItems, List.nil_append, skipSpace_newline, skipSpace_cons (c := ']') rfl]
  | cons y ys ih =>
    intro x h outer level size rest hs
    obtain _ | size := size
    · omega
    have hx : (pretty level x).length ≤ size := by
      rw [List.length_append] at hs
      omega
    have hys : (pretty level y ++ prettyItems level ys).length < size := by
      simp only [prettyItems, newline, List.length_append, List.length_cons] at hs ⊢
      omega
    have hcomma : prettyItems level (y :: ys) ++ (newline outer ++ ']' :: rest) =
        ',' :: (newline level ++
          (pretty level y ++ (prettyItems level ys ++ (newline outer ++ ']' :: rest)))) := by
      simp only [prettyItems, List.cons_append, List.append_assoc]
    rw [items?, h x (by simp) level size _ hx, Option.bind_some, hcomma]
    simp only [skipSpace_cons (c := ',') rfl]
    rw [items?_newline, ih (fun z hz => h z (List.mem_cons_of_mem x hz)) outer level size rest hys]
    rfl

/-- An array with items: what follows the bracket, without blanks, does not close it. -/
theorem value?_array {cs tail : List Char} {c : Char} (h : skipSpace cs = c :: tail) (hc : c ≠ ']')
    (size : Nat) : value? (size + 1) ('[' :: cs) =
      (items? size (c :: tail)).map fun (xs, rest) => (.array xs, rest) := by
  rw [value?, skipSpace_cons rfl]
  simp only [h]
  split
  · next heq => exact absurd (List.cons.inj heq).1 hc
  · rfl

theorem value?_object {cs tail : List Char} {c : Char} (h : skipSpace cs = c :: tail)
    (hc : c ≠ '\x7d') (size : Nat) : value? (size + 1) ('\x7b' :: cs) =
      (members? size (c :: tail)).map fun (ms, rest) => (.object ms, rest) := by
  rw [value?, skipSpace_cons rfl]
  simp only [h]
  split
  · next heq => exact absurd (List.cons.inj heq).1 hc
  · rfl

theorem readBack_array {items : List Json} (ht : ∀ x ∈ items, Textual x)
    (h : ∀ x ∈ items, ReadBack x) : ReadBack (.array items) := by
  intro level size rest hs
  cases items with
  | nil =>
    obtain _ | size := size
    · simp [pretty] at hs
    · rw [pretty, value?]
      rfl
  | cons x xs =>
    have hp : pretty level (.array (x :: xs)) ++ rest =
        '[' :: (newline (level + 1) ++ (pretty (level + 1) x ++
          (prettyItems (level + 1) xs ++ (newline level ++ ']' :: rest)))) := by
      simp only [pretty, List.cons_append, List.append_assoc, List.nil_append]
    have hsize : (pretty (level + 1) x ++ prettyItems (level + 1) xs).length + 3 ≤ size := by
      simp only [pretty, newline, List.length_append, List.length_cons] at hs ⊢
      omega
    obtain _ | size := size
    · omega
    have hitems := items?_pretty h level (level + 1) size rest (by omega)
    obtain ⟨c, cs, hhead, hc, hbracket⟩ := (ht x (by simp)).head (level + 1)
    rw [hhead, List.cons_append] at hp hitems
    rw [hp, value?_array (c := c) ?_ hbracket, hitems]
    · rfl
    · rw [skipSpace_newline, skipSpace_cons hc]

/-! ## Objects -/

/-- A member as it is written. -/
def writtenMember (level : Nat) (m : String × Json) : List Char :=
  quoted m.1 ++ [':', ' '] ++ pretty level m.2

def asMembers (ms : List (String × Json)) : List (Option String × Json) :=
  ms.map fun (name, value) => (some name, value)

/-- A member is read off, and then what follows it. -/
theorem members?_member {m : String × Json} (h : ReadBack m.2) {level size : Nat}
    (hs : (pretty level m.2).length ≤ size) (tail : List Char) :
    members? (size + 1) (writtenMember level m ++ tail) =
      match skipSpace tail with
      | '\x7d' :: rest => some ([(some m.1, m.2)], rest)
      | ',' :: rest => (members? size rest).map fun (ms, rest) => ((some m.1, m.2) :: ms, rest)
      | _ => none := by
  have hm : writtenMember level m ++ tail = '"' :: (m.1.toList.flatMap escapeChar ++
      '"' :: ':' :: ' ' :: (pretty level m.2 ++ tail)) := by
    simp only [writtenMember, quoted, List.cons_append, List.append_assoc, List.nil_append]
  rw [hm, members?, skipSpace_cons rfl]
  simp only [string?_quoted, Option.bind_some, skipSpace_cons (c := ':') rfl, value?_space]
  rw [h level size tail hs]
  rfl

/-- Members are read off in turn, up to the closing brace. -/
theorem members?_pretty {ms : List (String × Json)} : ∀ {m : String × Json},
    (∀ x ∈ m :: ms, ReadBack x.2) → ∀ (outer level size : Nat) (rest : List Char),
      (writtenMember level m ++ prettyMembers level (asMembers ms)).length < size →
      members? size (writtenMember level m ++
          (prettyMembers level (asMembers ms) ++ (newline outer ++ '\x7d' :: rest))) =
        some (asMembers (m :: ms), rest) := by
  induction ms with
  | nil =>
    intro m h outer level size rest hs
    obtain _ | size := size
    · omega
    have hx : (pretty level m.2).length ≤ size := by
      simp only [writtenMember, List.length_append] at hs
      omega
    rw [members?_member (h m (by simp)) hx]
    simp only [asMembers, List.map_nil, prettyMembers, List.nil_append, skipSpace_newline,
      skipSpace_cons (c := '\x7d') rfl]
    rfl
  | cons n ns ih =>
    intro m h outer level size rest hs
    obtain _ | size := size
    · omega
    have hx : (pretty level m.2).length ≤ size := by
      simp only [writtenMember, List.length_append] at hs
      omega
    have hns : prettyMembers level (asMembers (n :: ns)) = ',' :: (newline level ++
        (writtenMember level n ++ prettyMembers level (asMembers ns))) := by
      simp only [asMembers, List.map_cons, prettyMembers, writtenMember, Option.getD_some,
        List.cons_append, List.append_assoc]
    have hsize : (writtenMember level n ++ prettyMembers level (asMembers ns)).length < size := by
      rw [hns] at hs
      simp only [newline, List.length_append, List.length_cons] at hs ⊢
      omega
    rw [members?_member (h m (by simp)) hx, hns]
    simp only [List.cons_append, List.append_assoc, skipSpace_cons (c := ',') rfl]
    rw [members?_newline,
      ih (fun x hx => h x (List.mem_cons_of_mem m hx)) outer level size rest hsize]
    rfl

theorem readBack_record {members : List (String × Json)} (h : ∀ m ∈ members, ReadBack m.2) :
    ReadBack (.record members) := by
  intro level size rest hs
  cases members with
  | nil =>
    obtain _ | size := size
    · simp [record, pretty] at hs
    · rw [record, List.map_nil, pretty, value?]
      rfl
  | cons m ms =>
    have hpretty : pretty level (.record (m :: ms)) =
        '\x7b' :: (newline (level + 1) ++ (writtenMember (level + 1) m ++
          (prettyMembers (level + 1) (asMembers ms) ++ (newline level ++ ['\x7d'])))) := by
      simp only [record, asMembers, List.map_cons, pretty, writtenMember, Option.getD_some,
        List.cons_append, List.append_assoc]
    have hsize : (writtenMember (level + 1) m ++
        prettyMembers (level + 1) (asMembers ms)).length + 3 ≤ size := by
      rw [hpretty] at hs
      simp only [newline, List.length_append, List.length_cons] at hs ⊢
      omega
    obtain _ | size := size
    · omega
    have hmembers := members?_pretty h level (level + 1) size rest (by omega)
    rw [hpretty, List.cons_append]
    simp only [List.append_assoc, List.cons_append, List.nil_append]
    obtain ⟨tail, hhead⟩ : ∃ tail, writtenMember (level + 1) m ++
        (prettyMembers (level + 1) (asMembers ms) ++ (newline level ++ '\x7d' :: rest)) =
          '"' :: tail := ⟨_, rfl⟩
    rw [hhead] at hmembers ⊢
    rw [value?_object (c := '"') ?_ (by decide), hmembers]
    · rfl
    · rw [skipSpace_newline, skipSpace_cons rfl]

/-! ## Texts -/

/-- **A value made of texts, lists and records is read back** from its text. -/
theorem Textual.readBack {v : Json} (h : v.Textual) : ReadBack v := by
  induction h with
  | str s => exact readBack_str s
  | array ht ih => exact readBack_array ht ih
  | record _ ih => exact readBack_record ih

/-- Blanks after the value do not count. -/
theorem parse?_pretty_append {v : Json} (h : v.Textual) {cs : List Char} (hcs : skipSpace cs = []) :
    parse? (.ofList (v.pretty 0 ++ cs)) = some v := by
  have hv := h.readBack 0 (2 * (v.pretty 0 ++ cs).length + 2) cs (by simp only [List.length_append]; omega)
  rw [parse?, String.toList_ofList, String.length_ofList, hv]
  simp [hcs]

theorem parse?_pretty {v : Json} (h : v.Textual) : parse? (.ofList (v.pretty 0)) = some v := by
  rw [← List.append_nil (v.pretty 0)]
  exact parse?_pretty_append h rfl

end PageAudit.Json
