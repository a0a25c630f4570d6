/-! # Lines of a text

A newline ends a line. A carriage return right before the newline belongs to the line ending; any
other carriage return is part of the line. Text after the last newline is a line of its own.
-/

namespace SicAssembler.Text

/-- Put a character in front of the first line. -/
def consToFirst (c : Char) : List (List Char) → List (List Char)
  | [] => [[c]]
  | line :: rest => (c :: line) :: rest

def splitLines : List Char → List (List Char)
  | [] => []
  | '\n' :: rest => [] :: splitLines rest
  | '\r' :: '\n' :: rest => [] :: splitLines rest
  | c :: rest => consToFirst c (splitLines rest)

def lines (text : String) : List String := (splitLines text.toList).map String.ofList

/-- Lines written one after another, each with its newline. -/
def unlines (lines : List String) : String :=
  String.join (lines.map fun line => line ++ "\n")

example : lines "a\r\nb\rc\n\nd" = ["a", "b\rc", "", "d"] := by decide
example : lines "a\n\r" = ["a", "\r"] := by decide

end SicAssembler.Text
