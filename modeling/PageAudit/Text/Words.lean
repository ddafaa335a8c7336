import PageAudit.Text.Blank

/-!
# Parts and words

A text cut at separators into parts, the words between its blank characters, and its single-spaced
form: the words joined by one space.
-/

namespace PageAudit.Text

/-- The parts between the characters that `sep` picks out: one more than there are such characters. -/
def partsOf (sep : Char → Bool) : List Char → List (List Char)
  | [] => [[]]
  | c :: cs =>
    if sep c then [] :: partsOf sep cs
    else match partsOf sep cs with
      | part :: parts => (c :: part) :: parts
      | [] => [[c]]

/-- What stands before and after the first `sep`, if there is one. -/
def cutAt (sep : Char) : List Char → Option (List Char × List Char)
  | [] => none
  | c :: cs => if c = sep then some ([], cs) else (cutAt sep cs).map fun (a, b) => (c :: a, b)

/-- The words of a text: what stands between runs of blank characters. -/
def wordsOf (cs : List Char) : List (List Char) :=
  (partsOf isBlank cs).filter (!·.isEmpty)

/-- The words joined by single spaces. -/
def singleSpaced (cs : List Char) : List Char :=
  [' '].intercalate (wordsOf cs)

def parts (sep : Char) (s : String) : List String :=
  (partsOf (· == sep) s.toList).map .ofList

def words (s : String) : List String :=
  (wordsOf s.toList).map .ofList

/-- The text made of lines, each ended by a line feed. -/
def ofLines (lines : List String) : String :=
  String.join (lines.map (· ++ "\n"))

def normalize (s : String) : String :=
  .ofList (singleSpaced s.toList)

end PageAudit.Text
