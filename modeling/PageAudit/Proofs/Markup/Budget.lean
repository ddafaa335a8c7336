import PageAudit.Document.Markup
import Mathlib.Data.List.Basic

/-!
# Markup within a budget

An excerpt is written by a recursion that leaves off as soon as its buffer is full. What it writes is a
beginning of the markup, as long as the limit allows.

* `Excerpt.write_eq_foldl`: to write a tree is to push its pieces (`Tree.pieces`) one after the other.
  It makes no difference where the recursion leaves off, since a full buffer takes nothing.
* `Excerpt.push_upTo`: what has been pushed is a beginning of all the pieces, joined. So an excerpt is
  the markup, or a beginning of it (`Tree.excerpt_eq`).
* `ByteBuffer`: the buffer with its text in UTF-8 and the characters counted beside it, whose `push?`
  fails if there are more than the limit, or if it would cut inside a character. On buffers that fit
  (`Excerpt.Fits`) it does not fail and does what `Excerpt.push` does (`ByteBuffer.exists_push?`).
* `Element.budgeted_excerpt`: all of this for every element and every limit.
-/

namespace PageAudit

open Markup

/-! ## Pieces -/

namespace Tree

mutual

/-- The pieces in which the markup of a tree is written: tags and texts. -/
def pieces : Tree → List (List Char)
  | .text content => [Markup.text content]
  | .element tag attributes children =>
    if isVoid tag then [openingTag tag attributes]
    else openingTag tag attributes :: (piecesAll children ++ [closingTag tag])

def piecesAll : List Tree → List (List Char)
  | [] => []
  | t :: ts => pieces t ++ piecesAll ts

end

mutual

theorem flatten_pieces : ∀ t : Tree, t.pieces.flatten = t.markup
  | .text content => by simp [pieces, markup]
  | .element tag attributes children => by
    by_cases hv : isVoid tag = true
    · simp [pieces, markup, hv]
    · simp [pieces, markup, hv, flatten_piecesAll children]

theorem flatten_piecesAll : ∀ ts : List Tree, (piecesAll ts).flatten = markupAll ts
  | [] => by simp [piecesAll, markupAll]
  | t :: ts => by
    rw [piecesAll, List.flatten_append, flatten_pieces t, flatten_piecesAll ts, markupAll]

end

end Tree

/-! ## The buffer -/

namespace Excerpt

variable {b : Excerpt}

theorem push_of_cut (hb : b.cut = true) (piece : List Char) : b.push piece = b := by
  rw [push, if_pos hb]

theorem write_of_cut (hb : b.cut = true) (t : Tree) : b.write t = b := by
  cases t <;> rw [write, if_pos hb]

theorem writeAll_of_cut (hb : b.cut = true) (ts : List Tree) : b.writeAll ts = b := by
  cases ts with
  | nil => rw [writeAll]
  | cons t ts => rw [writeAll, if_pos hb]

theorem foldl_push_of_cut (hb : b.cut = true) (pieces : List (List Char)) :
    pieces.foldl push b = b := by
  induction pieces with
  | nil => rfl
  | cons piece pieces ih => rw [List.foldl_cons, push_of_cut hb, ih]

theorem writeAll_singleton (t : Tree) : b.writeAll [t] = b.write t := by
  rw [writeAll]
  split
  case isTrue hb => rw [write_of_cut hb]
  case isFalse => rw [writeAll]

section
variable (hb : b.cut = false)
include hb

theorem writeAll_cons (t : Tree) (ts : List Tree) :
    b.writeAll (t :: ts) = (b.write t).writeAll ts := by
  rw [writeAll, if_neg (by simp [hb])]

theorem write_text (content : String) : b.write (.text content) = b.push (Markup.text content) := by
  rw [write, if_neg (by simp [hb])]

theorem write_void {tag : String} (hv : isVoid tag = true) (attributes : List Attribute)
    (children : List Tree) :
    b.write (.element tag attributes children) = b.push (openingTag tag attributes) := by
  rw [write, if_neg (by simp [hb]), if_pos hv]

/-- A full buffer takes no closing tag. -/
theorem write_element {tag : String} (hv : isVoid tag = false) (attributes : List Attribute)
    (children : List Tree) : b.write (.element tag attributes children) =
      ((b.push (openingTag tag attributes)).writeAll children).push (closingTag tag) := by
  rw [write, if_neg (by simp [hb]), if_neg (by simp [hv])]
  dsimp only
  split
  · next hf => rw [push_of_cut hf]
  · rfl

end

mutual

/-- **To write a tree is to push its pieces**: wherever writing leaves off, the pieces that are left
out would change nothing. -/
theorem write_eq_foldl : ∀ (t : Tree) (b : Excerpt), b.write t = t.pieces.foldl push b
  | .text content, b => by
    cases hb : b.cut with
    | true => rw [write_of_cut hb, foldl_push_of_cut hb]
    | false => rw [write_text hb, Tree.pieces, List.foldl_cons, List.foldl_nil]
  | .element tag attributes children, b => by
    cases hb : b.cut with
    | true => rw [write_of_cut hb, foldl_push_of_cut hb]
    | false =>
      cases hv : isVoid tag with
      | true => rw [write_void hb hv, Tree.pieces, if_pos hv, List.foldl_cons, List.foldl_nil]
      | false =>
        rw [write_element hb hv, writeAll_eq_foldl children, Tree.pieces, if_neg (by simp [hv]),
          List.foldl_cons, List.foldl_append, List.foldl_cons, List.foldl_nil]

theorem writeAll_eq_foldl : ∀ (ts : List Tree) (b : Excerpt),
    b.writeAll ts = (Tree.piecesAll ts).foldl push b
  | [], b => by rw [writeAll, Tree.piecesAll, List.foldl_nil]
  | t :: ts, b => by
    cases hb : b.cut with
    | true => rw [writeAll_of_cut hb, foldl_push_of_cut hb]
    | false =>
      rw [writeAll_cons hb, write_eq_foldl t, writeAll_eq_foldl ts, Tree.piecesAll,
        List.foldl_append]

end

/-! ## What has been written -/

/-- The buffer after `written` was pushed: as much of it as the limit allows. -/
def upTo (limit : Nat) (written : List Char) : Excerpt :=
  ⟨limit, written.take limit, min limit written.length, limit < written.length⟩

theorem upTo_nil (limit : Nat) : upTo limit [] = ⟨limit, [], 0, false⟩ := by
  simp [upTo]

/-- **What has been written is a beginning of what was pushed**, however it was cut into pieces. -/
theorem push_upTo (limit : Nat) (written piece : List Char) :
    (upTo limit written).push piece = upTo limit (written ++ piece) := by
  rcases Nat.lt_or_ge limit written.length with hfull | hroom
  · rw [push_of_cut (by simp [upTo, hfull])]
    have hle : limit ≤ written.length := Nat.le_of_lt hfull
    simp [upTo, List.take_append_of_le_length hle, hfull, Nat.min_eq_left hle,
      Nat.min_eq_left (Nat.le_add_right_of_le hle), Nat.lt_add_right _ hfull]
  · have hopen : (upTo limit written).cut = false := by simp [upTo, Nat.not_lt.2 hroom]
    rw [push, if_neg (by simp [hopen])]
    dsimp only [upTo]
    rw [Nat.min_eq_right hroom, List.take_of_length_le hroom, List.take_append,
      List.take_of_length_le hroom, List.length_append]
    split
    case isTrue hfits =>
      have hle : written.length + piece.length ≤ limit := by omega
      simp [List.take_of_length_le hfits, Nat.min_eq_right hle, Nat.not_lt.2 hle, Nat.not_lt.2 hroom]
    case isFalse hfits =>
      have hlt : limit < written.length + piece.length := by omega
      simp [hlt, Nat.min_eq_left (Nat.le_of_lt hlt)]

theorem foldl_push_upTo (limit : Nat) (pieces : List (List Char)) (written : List Char) :
    pieces.foldl push (upTo limit written) = upTo limit (written ++ pieces.flatten) := by
  induction pieces generalizing written with
  | nil => simp
  | cons piece pieces ih =>
    rw [List.foldl_cons, push_upTo, ih, List.flatten_cons, List.append_assoc]

end Excerpt

namespace Tree

theorem write_eq_upTo (limit : Nat) (t : Tree) :
    Excerpt.write ⟨limit, [], 0, false⟩ t = .upTo limit t.markup := by
  rw [Excerpt.write_eq_foldl, ← Excerpt.upTo_nil, Excerpt.foldl_push_upTo, List.nil_append,
    flatten_pieces]

/-- **An excerpt** is the markup if there is room for it, and else as much of it as there is room for,
followed by three dots. -/
theorem excerpt_eq (limit : Nat) (t : Tree) : t.excerpt limit =
    if t.markup.length ≤ limit then t.markup else t.markup.take limit ++ "...".toList := by
  rw [excerpt, write_eq_upTo, Excerpt.result, Excerpt.upTo]
  split
  case isTrue hcut =>
    rw [if_neg (Nat.not_le.2 (of_decide_eq_true hcut))]
  case isFalse hcut =>
    have hle : t.markup.length ≤ limit := by simpa using hcut
    rw [if_pos hle, List.take_of_length_le hle]

theorem excerpt_of_le {limit : Nat} {t : Tree} (h : t.markup.length ≤ limit) :
    t.excerpt limit = t.markup := by
  rw [excerpt_eq, if_pos h]

end Tree

/-! ## Bytes -/

namespace Text

/-- The characters of a text, each with the number of the byte at which it begins. -/
def charOffsets : Nat → List Char → List (Nat × Char)
  | _, [] => []
  | start, c :: cs => (start, c) :: charOffsets (start + c.utf8Size) cs

/-- The first `stop` bytes of a text; nothing if they end inside a character. -/
def cutBytes? (s : String) (stop : Nat) : Option String :=
  if h : String.Pos.Raw.IsValid s ⟨stop⟩ then
    some ⟨s.toByteArray.extract 0 stop, h.isValidUTF8_extract_zero⟩
  else none

/-- A character begins after the bytes of the characters before it. -/
theorem getElem?_charOffsets (start : Nat) (cs : List Char) (k : Nat) : (charOffsets start cs)[k]? =
    cs[k]?.map fun c => (start + (String.ofList (cs.take k)).utf8ByteSize, c) := by
  induction cs generalizing start k with
  | nil => rfl
  | cons c cs ih =>
    cases k with
    | zero => simp [charOffsets]
    | succ k =>
      rw [charOffsets, List.getElem?_cons_succ, ih, List.getElem?_cons_succ, List.take_succ_cons,
        String.ofList_cons, String.utf8ByteSize_append, String.utf8ByteSize_singleton,
        Nat.add_assoc]

/-- The bytes before a character are the characters before it. -/
theorem cutBytes?_append (a b : String) : cutBytes? (a ++ b) a.utf8ByteSize = some a := by
  have boundary : String.Pos.Raw.IsValid (a ++ b) ⟨a.utf8ByteSize⟩ :=
    String.Pos.Raw.isValid_iff_exists_append.2 ⟨a, b, rfl, rfl⟩
  rw [cutBytes?, dif_pos boundary, Option.some.injEq, ← String.toByteArray_inj]
  exact (congrArg (·.extract 0 a.utf8ByteSize) String.toByteArray_append).trans
    (ByteArray.extract_append_eq_left String.size_toByteArray.symm)

theorem cutBytes?_take (cs : List Char) (k : Nat) :
    cutBytes? (.ofList cs) (String.ofList (cs.take k)).utf8ByteSize =
      some (.ofList (cs.take k)) := by
  have h := cutBytes?_append (.ofList (cs.take k)) (.ofList (cs.drop k))
  rwa [← String.ofList_append, List.take_append_drop] at h

end Text

/-- A buffer as it is stored: its text in UTF-8, and beside it the number of characters. -/
structure ByteBuffer where
  limit : Nat
  text : String := ""
  chars : Nat := 0
  cut : Bool := false

namespace ByteBuffer

/-- Appends as much of `piece` as there is room for, cut at the byte where the first character begins
for which there is none. It fails if more characters are counted than the limit, so that the room
would be negative, and if the cut would be inside a character. -/
def push? (b : ByteBuffer) (piece : List Char) : Option ByteBuffer :=
  if b.cut then some b
  else if b.limit < b.chars then none
  else
    match (Text.charOffsets 0 piece)[b.limit - b.chars]? with
    | some (stop, _) => (Text.cutBytes? (.ofList piece) stop).map fun kept =>
      { b with text := b.text ++ kept, chars := b.limit, cut := true }
    | none => some { b with text := b.text ++ .ofList piece, chars := b.chars + piece.length }

def result (b : ByteBuffer) : String :=
  if b.cut then b.text ++ "..." else b.text

/-- What is stored, as a list of characters. -/
def view (b : ByteBuffer) : Excerpt :=
  ⟨b.limit, b.text.toList, b.chars, b.cut⟩

end ByteBuffer

/-- The size of a buffer is the number of its characters, and not over the limit. -/
structure Excerpt.Fits (b : Excerpt) : Prop where
  counted : b.size = b.chars.length
  bounded : b.size ≤ b.limit

theorem Excerpt.Fits.push {b : Excerpt} (h : b.Fits) (piece : List Char) : (b.push piece).Fits := by
  obtain ⟨counted, bounded⟩ := h
  unfold Excerpt.push
  dsimp only
  split
  · exact ⟨counted, bounded⟩
  · split
    case isTrue hroom => exact ⟨by simp [counted], by dsimp only; omega⟩
    case isFalse hroom => exact ⟨by simp; omega, Nat.le_refl _⟩

namespace ByteBuffer

/-- **On a buffer that fits a push does not fail**, and it does on bytes what is done on characters. -/
theorem exists_push? {b : ByteBuffer} (h : b.view.Fits) (piece : List Char) :
    ∃ b', b.push? piece = some b' ∧ b'.view = b.view.push piece := by
  unfold push? Excerpt.push
  cases hb : b.cut with
  | true => exact ⟨b, by simp, by simp [view, hb]⟩
  | false =>
    have room : ¬ b.limit < b.chars := Nat.not_lt.2 h.bounded
    have offset := Text.getElem?_charOffsets 0 piece (b.limit - b.chars)
    rw [if_neg (by simp), if_neg room, if_neg (by simp [view, hb]), offset]
    dsimp only [view]
    rcases Nat.lt_or_ge (b.limit - b.chars) piece.length with hlong | hfits
    · rw [List.getElem?_eq_getElem hlong, if_neg (Nat.not_le.2 hlong)]
      dsimp only [Option.map_some]
      rw [Nat.zero_add, Text.cutBytes?_take]
      exact ⟨_, rfl, by simp⟩
    · rw [List.getElem?_eq_none hfits, if_pos hfits]
      exact ⟨_, rfl, by simp [hb]⟩

/-- So a run of pushes does not fail either, and it ends in a buffer that fits. -/
theorem exists_foldlM_push? (pieces : List (List Char)) {b : ByteBuffer} (h : b.view.Fits) :
    ∃ b', pieces.foldlM push? b = some b' ∧ b'.view.Fits ∧
      b'.view = pieces.foldl Excerpt.push b.view := by
  induction pieces generalizing b with
  | nil => exact ⟨b, rfl, h, rfl⟩
  | cons piece pieces ih =>
    obtain ⟨c, hc, hview⟩ := exists_push? h piece
    obtain ⟨b', hrun, hfits, hb'⟩ := ih (hview ▸ h.push piece)
    exact ⟨b', by rw [List.foldlM_cons, hc]; exact hrun, hfits, by rw [hb', hview, List.foldl_cons]⟩

theorem result_eq (b : ByteBuffer) : b.result = .ofList b.view.result := by
  unfold result Excerpt.result view
  dsimp only
  split
  · rw [String.ofList_append, String.ofList_toList, String.ofList_toList]
  · rw [String.ofList_toList]

end ByteBuffer

theorem Element.excerpt_eq (e : Element) (limit : Nat) : e.excerpt limit =
    if e.outerHtml.length ≤ limit then e.outerHtml
    else .ofList (e.outerHtml.toList.take limit) ++ "..." := by
  rw [excerpt, Tree.excerpt_eq, outerHtml, String.length_ofList, String.toList_ofList]
  split
  · rfl
  · rw [String.ofList_append, String.toList_ofList]

/-- **A budget cuts the markup of an element and does nothing else.** The excerpt is the markup if that
has at most `limit` characters, and else its first `limit` characters with three dots behind them. It
is written piece by piece: wherever writing leaves off, the other pieces would change nothing. After
any number of pieces no push has failed, and the stored buffer has counted its characters right and
not more than the limit. After all of them it holds the excerpt. -/
theorem Element.budgeted_excerpt (e : Element) (limit : Nat) :
    (e.excerpt limit = if e.outerHtml.length ≤ limit then e.outerHtml
      else .ofList (e.outerHtml.toList.take limit) ++ "...") ∧
    (∀ b : Excerpt, b.write e.tree = e.tree.pieces.foldl Excerpt.push b) ∧
    (∀ k, ∃ b, (e.tree.pieces.take k).foldlM ByteBuffer.push? { limit } = some b ∧
      b.chars = b.text.length ∧ b.chars ≤ limit ∧
      b.view = (e.tree.pieces.take k).foldl Excerpt.push ⟨limit, [], 0, false⟩) ∧
    ∃ b, e.tree.pieces.foldlM ByteBuffer.push? { limit } = some b ∧ e.excerpt limit = b.result := by
  have empty : ({ limit } : ByteBuffer).view.Fits := ⟨rfl, Nat.zero_le limit⟩
  refine ⟨e.excerpt_eq limit, Excerpt.write_eq_foldl e.tree, fun k => ?_, ?_⟩
  · obtain ⟨b, hrun, hfits, hview⟩ := ByteBuffer.exists_foldlM_push? (e.tree.pieces.take k) empty
    have hlimit : b.limit = limit := by
      have h := congrArg Excerpt.limit hview
      rwa [show ({ limit } : ByteBuffer).view = .upTo limit [] from (Excerpt.upTo_nil limit).symm,
        Excerpt.foldl_push_upTo] at h
    exact ⟨b, hrun, hfits.counted, hlimit ▸ hfits.bounded, hview⟩
  · obtain ⟨b, hrun, -, hview⟩ := ByteBuffer.exists_foldlM_push? e.tree.pieces empty
    refine ⟨b, hrun, ?_⟩
    rw [b.result_eq, hview, ← Excerpt.write_eq_foldl]
    rfl

/-- A paragraph with a text of four characters, of which three are longer than a byte and the last is
written as an entity. -/
def accented : Element :=
  ⟨⟨#[⟨.element "p" [], #[1]⟩, ⟨.text "é€😀<", #[]⟩], some 0⟩, 0⟩

/-- With room for seven characters the entity is cut after its first; all before it is whole. -/
theorem budgeted_excerpt_accented : accented.outerHtml = "<p>é€😀&lt;</p>" ∧
    accented.excerpt 6 = "<p>é€😀..." ∧ accented.excerpt 7 = "<p>é€😀&..." ∧
    ∃ b, accented.tree.pieces.foldlM ByteBuffer.push? { limit := 7 } = some b ∧
      accented.excerpt 7 = b.result :=
  ⟨by decide, by decide, by decide, (accented.budgeted_excerpt 7).2.2.2⟩

end PageAudit
