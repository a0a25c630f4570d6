import SicAssembler.Text.Blank
import SicAssembler.Text.Separated

/-! # Operands

An operand is kept as it was written. Its first character chooses the addressing mode, a final
`,X` asks for indexing, and what stands between them is the key: the name or the number that the
operand refers to.
-/

namespace SicAssembler

structure Operand where
  text : String
deriving DecidableEq, Repr

/-- How the value of an operand is used. -/
inductive AddressMode where
  /-- The operand is the place of the value. -/
  | simple
  /-- The operand, marked `#`, is the value. -/
  | immediate
  /-- The operand, marked `@`, is the place of the address of the value. -/
  | indirect
deriving DecidableEq, Repr

namespace Operand

/-- Whether the operand is marked `#`. -/
def isImmediate (operand : Operand) : Bool := operand.text.toList.head? == some '#'

/-- Whether the operand is marked `@`. -/
def isIndirect (operand : Operand) : Bool := operand.text.toList.head? == some '@'

/-- The addressing mode that the first character chooses. -/
def mode (operand : Operand) : AddressMode :=
  if operand.isImmediate then .immediate
  else if operand.isIndirect then .indirect
  else .simple

def dropMark : List Char → List Char
  | '#' :: rest => rest
  | '@' :: rest => rest
  | text => text

/-- The text in front of a final `,X`. -/
def beforeIndex? (text : List Char) : Option (List Char) :=
  match text.reverse with
  | 'X' :: ',' :: front => some front.reverse
  | _ => none

/-- Whether the operand ends with `,X`. -/
def isIndexed (operand : Operand) : Bool := (beforeIndex? operand.text.toList).isSome

/-- The name or number that the operand refers to: mark and index removed, then trimmed. -/
def key (operand : Operand) : String :=
  let unmarked := dropMark operand.text.toList
  String.ofList (Text.trim ((beforeIndex? unmarked).getD unmarked))

/-- The parts between commas, trimmed. There is always a first one. -/
def parts (operand : Operand) : String × List String :=
  let (first, others) := Text.splitParts ',' operand.text.toList
  (String.ofList (Text.trim first), others.map fun part => String.ofList (Text.trim part))

theorem beforeIndex?_eq_some_iff {text front : List Char} :
    beforeIndex? text = some front ↔ text = front ++ [',', 'X'] := by
  constructor
  · intro found
    unfold beforeIndex? at found
    split at found
    · next rest reversed =>
      cases found
      have := congrArg List.reverse reversed
      simpa using this
    · contradiction
  · rintro rfl
    simp [beforeIndex?]

example : (Operand.mk "#BUFFER,X").key = "BUFFER" ∧ (Operand.mk "#BUFFER,X").isIndexed := by decide
example : (Operand.mk "@ ,X").key = "" ∧ (Operand.mk "@ ,X").mode = .indirect := by decide

example : (Operand.mk "A, S").parts = ("A", ["S"]) := by decide

end Operand

end SicAssembler
