import SicAssembler.Statement

/-! # Source programs

A source program is a list of lines. Those with a statement are numbered from 1 by their place
among all lines, and keep their text for the listing. A program ends with its first `END`.
-/

namespace SicAssembler

/-- A statement with the line that it stands on. -/
structure SourceLine where
  line : Nat
  /-- The text of the line without the blank characters at its end. -/
  source : String
  statement : Statement
deriving DecidableEq, Repr

namespace SourceLine

/-- Read the lines of a program, the first of which has the given number. -/
def parseFrom (machine : Machine) : Nat → List String → Except Diagnostic (List SourceLine)
  | _, [] => .ok []
  | line, text :: rest =>
    match Statement.parse machine text with
    | .error fault => .error (.source line fault)
    | .ok none => parseFrom machine (line + 1) rest
    | .ok (some statement) =>
      match parseFrom machine (line + 1) rest with
      | .error diagnostic => .error diagnostic
      | .ok lines => .ok (⟨line, String.ofList (Text.trimEnd text.toList), statement⟩ :: lines)

/-- Read the lines of a program. The first line that holds no statement and is neither blank nor a
comment stops the reading. -/
def parseAll (machine : Machine) (lines : List String) : Except Diagnostic (List SourceLine) :=
  parseFrom machine 1 lines

theorem parseFrom_append (machine : Machine) (line : Nat) (front back : List String) :
    parseFrom machine line (front ++ back) = do
      let first ← parseFrom machine line front
      let second ← parseFrom machine (line + front.length) back
      return first ++ second := by
  induction front generalizing line with
  | nil =>
    simp only [List.nil_append, parseFrom, bind, Except.bind, List.length_nil, Nat.add_zero]
    cases parseFrom machine line back <;> rfl
  | cons text rest ih =>
    simp only [List.cons_append, parseFrom, List.length_cons]
    rw [ih, show line + (rest.length + 1) = line + 1 + rest.length by omega]
    cases Statement.parse machine text with
    | error fault => rfl
    | ok found =>
      cases parseFrom machine (line + 1) rest with
      | error diagnostic => cases found <;> rfl
      | ok first =>
        cases parseFrom machine (line + 1 + rest.length) back with
        | error diagnostic => cases found <;> rfl
        | ok second => cases found <;> rfl

def isEnd (source : SourceLine) : Bool := source.statement.operation == .directive .finish

/-- The program proper: all lines up to the first `END`, which is included. -/
def throughEnd : List SourceLine → List SourceLine
  | [] => []
  | line :: rest => if line.isEnd then [line] else line :: throughEnd rest

/-- What stands after the first `END` is not part of the program. -/
theorem throughEnd_append_of_isEnd (front back : List SourceLine)
    (ends : ∃ line ∈ front, line.isEnd = true) :
    throughEnd (front ++ back) = throughEnd front := by
  induction front with
  | nil => simp at ends
  | cons line rest ih =>
    by_cases isEnd : line.isEnd = true
    · simp [throughEnd, isEnd]
    · obtain ⟨found, member, foundEnds⟩ := ends
      rcases List.mem_cons.mp member with rfl | inRest
      · exact absurd foundEnds isEnd
      · simp [throughEnd, isEnd, ih ⟨found, inRest, foundEnds⟩]

end SourceLine

end SicAssembler
