import SicAssembler.Address
import SicAssembler.Statement

/-! # Operands of directives and sizes of statements

Each directive reads its operand in its own way. The size of a statement depends on nothing but the
statement, so both the placement of labels and the generation of code count with the same sizes.
-/

namespace SicAssembler.Statement

/-- The operand, which the operation cannot do without. -/
def required (statement : Statement) : Except Fault Operand :=
  match statement.operand with
  | some operand => .ok operand
  | none => .error (.invalidOperand "" (.missing statement.operation.mnemonic))

/-- The text of the operand, empty if there is none. -/
def operandText (statement : Statement) : String :=
  (statement.operand.map Operand.text).getD ""

/-- The address of `START` in hexadecimal; without an operand it is 0. -/
def startAddress (statement : Statement) : Except Fault Nat :=
  match statement.operand with
  | none => .ok 0
  | some operand =>
    (Numeral.readHex operand.text).mapError fun error =>
      .invalidOperand operand.text (.numeral error)

def reserveCount (statement : Statement) : Except Fault Nat := do
  let operand ← statement.required
  (Numeral.readCount operand.text).mapError fun error =>
    .invalidOperand operand.text (.numeral error)

def byteLiteral (statement : Statement) : Except Fault ByteLiteral := do
  let operand ← statement.required
  (ByteLiteral.read operand.text).mapError fun error =>
    .invalidOperand operand.text (.literal error)

/-- The number of `WORD`, which has to fit in 24 bits with or without a sign. -/
def wordValue (statement : Statement) : Except Fault Int := do
  let operand ← statement.required
  let value ← (Numeral.readDecimal operand.text).mapError fun error =>
    Fault.invalidOperand operand.text (.numeral error)
  if -0x800000 ≤ value ∧ value < 0x1000000 then .ok value
  else .error (.invalidOperand operand.text .valueOver24Bits)

def wordSize : Nat := 3

/-- The fault of a statement that does not end below `2 ^ 32`. -/
def overflow (statement : Statement) : Fault :=
  .invalidOperand statement.operandText .counterOverflow

/-- How many bytes a statement takes in memory. -/
def size (statement : Statement) : Except Fault Nat :=
  match statement.operation with
  | .machine instruction => .ok (if statement.extended then 4 else instruction.format.size)
  | .directive .word => .ok wordSize
  | .directive .reserveWords => do
    let count ← statement.reserveCount
    if count * wordSize < Address.limit then .ok (count * wordSize) else .error statement.overflow
  | .directive .reserveBytes => statement.reserveCount
  | .directive .byte => do return (← statement.byteLiteral).size
  | .directive .start => .ok 0
  | .directive .finish => .ok 0
  | .directive .base => .ok 0

/-- Whether a statement leaves memory unused, so that code behind it is not adjacent. -/
def reserves (statement : Statement) : Bool :=
  match statement.operation with
  | .directive .reserveBytes => true
  | .directive .reserveWords => true
  | _ => false

end SicAssembler.Statement
