import SicAssembler.Text.Blank

/-! # Words of a line

Blank characters separate words, except between apostrophes. Letters of ASCII are put in upper
case everywhere, inside apostrophes too.
-/

namespace SicAssembler.Words

/-- Put a finished word in front of the others; an empty one is no word. -/
def consWord (word : List Char) (words : List (List Char)) : List (List Char) :=
  if word.isEmpty then words else word :: words

/-- Scan the rest of a line, knowing whether an apostrophe is open. The result is the rest of the
word that the scan started in, and the words after it. -/
def scan : Bool → List Char → List Char × List (List Char)
  | _, [] => ([], [])
  | quoted, c :: rest =>
    if c = '\'' then
      let (word, words) := scan (!quoted) rest
      (c :: word, words)
    else if Text.isBlank c && !quoted then
      let (word, words) := scan quoted rest
      ([], consWord word words)
    else
      let (word, words) := scan quoted rest
      (c.toUpper :: word, words)

def split (text : List Char) : List (List Char) :=
  let (word, words) := scan false text
  consWord word words

def ofLine (line : String) : List String := (split line.toList).map String.ofList

@[simp] theorem consWord_nil (words : List (List Char)) : consWord [] words = words := rfl

@[simp] theorem consWord_cons (c : Char) (word : List Char) (words : List (List Char)) :
    consWord (c :: word) words = (c :: word) :: words := rfl

theorem mem_consWord {word other : List Char} {words : List (List Char)} :
    other ∈ consWord word words ↔ other = word ∧ word ≠ [] ∨ other ∈ words := by
  cases word <;> simp

example : ofLine "eof byte C'a  b'\tx" = ["EOF", "BYTE", "C'A  B'", "X"] := by decide

end SicAssembler.Words
