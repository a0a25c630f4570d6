import SicAssembler.ByteLiteral
import SicAssembler.Numeral
import SicAssembler.Text.Column

/-! # Diagnostics

A fault says what is wrong with one statement; a diagnostic adds the line where it stands, or tells
of a file that could not be used. The wording of every message is fixed here and nowhere else.
-/

namespace SicAssembler

/-- Why the operation word of a statement is rejected. -/
inductive OpcodeReason where
  | unknown
  | extendedOnSic
  | extendedNeedsFormat3
  | extendedDirective
  | startNotFirst
  /-- A reason in the caller's own words. -/
  | other (text : String)
deriving DecidableEq, Repr

def OpcodeReason.message : OpcodeReason → String
  | .unknown => "not a known mnemonic"
  | .extendedOnSic => "extended format is not available on SIC"
  | .extendedNeedsFormat3 => "format 4 requires a format 3 instruction"
  | .extendedDirective => "directives have no extended format"
  | .startNotFirst => "START must be the first statement"
  | .other text => text

/-- Why the operand of a statement is rejected. -/
inductive OperandReason where
  /-- The operation needs an operand and has none. -/
  | missing (mnemonic : String)
  /-- The operation has an operand and takes none. -/
  | unwanted (mnemonic : String)
  | numeral (error : NumeralError)
  | literal (error : LiteralError)
  /-- The statement would end above the largest 32-bit address. -/
  | counterOverflow
  | tooManyRegisters
  | unknownRegister
  /-- A small number lies outside its closed range. -/
  | numberRange (least greatest : Nat)
  | addressOver15Bits
  | addressOver20Bits
  | valueOver24Bits
  /-- The addressing mode exists on SIC/XE only. -/
  | modeNeedsXe
  /-- An immediate constant is no 32-bit unsigned number. -/
  | negativeImmediate
  /-- The base register would get a value that is no 32-bit unsigned number. -/
  | negativeBase
  /-- A reason in the caller's own words. -/
  | other (text : String)
deriving DecidableEq, Repr

def OperandReason.message : OperandReason → String
  | .missing mnemonic => mnemonic ++ " requires an operand"
  | .unwanted mnemonic => mnemonic ++ " takes no operand"
  | .numeral error => error.message
  | .literal error => error.message
  | .counterOverflow => "location counter overflow"
  | .tooManyRegisters => "at most two registers"
  | .unknownRegister => "unknown register"
  | .numberRange least greatest =>
    "expected a number in " ++ toString least ++ "..=" ++ toString greatest
  | .addressOver15Bits => "address exceeds 15 bits"
  | .addressOver20Bits => "address exceeds 20 bits"
  | .valueOver24Bits => "value does not fit in 24 bits"
  | .modeNeedsXe => "immediate and indirect addressing need SIC/XE"
  | .negativeImmediate => "negative immediate"
  | .negativeBase => "negative base"
  | .other text => text

inductive Fault where
  /-- The words of the line form no statement. -/
  | malformed (text : String)
  /-- The label was defined by an earlier statement. -/
  | duplicateLabel (label : String) (address : Nat)
  /-- The name is no label of the program. -/
  | unresolvedSymbol (symbol : String) (address : Nat)
  /-- Twelve bits hold neither the value nor a distance to it. -/
  | outOfReach (operand : String) (address : Nat)
  | invalidOpcode (mnemonic : String) (reason : OpcodeReason)
  | invalidOperand (operand : String) (reason : OperandReason)
  /-- A step of address arithmetic left the 32-bit range. -/
  | addressRange
deriving DecidableEq, Repr

/-- The address that a message shows next to the line. -/
def Fault.address? : Fault → Option Nat
  | .duplicateLabel _ address => some address
  | .unresolvedSymbol _ address => some address
  | .outOfReach _ address => some address
  | _ => none

/-- The wording of a fault, without its place. -/
def Fault.message : Fault → String
  | .malformed text => "malformed line: " ++ text
  | .duplicateLabel label _ => "duplicate label: " ++ label
  | .unresolvedSymbol symbol _ => "label not found: " ++ symbol
  | .outOfReach operand _ =>
    operand ++ " is out of PC-relative and base-relative range, use format 4 (+)"
  | .invalidOpcode mnemonic reason => "invalid opcode " ++ mnemonic ++ ": " ++ reason.message
  | .invalidOperand operand reason => "invalid operand " ++ operand ++ ": " ++ reason.message
  | .addressRange => "address arithmetic leaves 32 bits"

inductive FileFailure where
  | notFound
  | notDirectory
  | isDirectory
  | notUtf8
  /-- A failure in the system's own words. -/
  | other (text : String)
deriving DecidableEq, Repr

def FileFailure.message : FileFailure → String
  | .notFound => "No such file or directory (os error 2)"
  | .notDirectory => "Not a directory (os error 20)"
  | .isDirectory => "Is a directory (os error 21)"
  | .notUtf8 => "stream did not contain valid UTF-8"
  | .other text => text

/-- What stops an assembly. -/
inductive Diagnostic where
  /-- A fault of the statement on a line, counted from 1. -/
  | source (line : Nat) (fault : Fault)
  /-- A file could not be used. -/
  | file (failure : FileFailure)
deriving DecidableEq, Repr

namespace Diagnostic

def line? : Diagnostic → Option Nat
  | .source line _ => some line
  | .file _ => none

/-- The whole message, with line and address in front. -/
def message : Diagnostic → String
  | .source line fault =>
    let place := match fault.address? with
      | some address => " ($" ++ Text.hexColumn 6 address ++ ")"
      | none => ""
    "line " ++ toString line ++ place ++ ": " ++ fault.message
  | .file failure => "IO error: " ++ failure.message

/-- Move the line of a diagnostic, as when lines are inserted above it. -/
def mapLine (move : Nat → Nat) : Diagnostic → Diagnostic
  | .source line fault => .source (move line) fault
  | .file failure => .file failure

example : (source 7 (.unresolvedSymbol "ALPHA" 0x1003)).message =
    "line 7 ($001003): label not found: ALPHA" := by decide

end Diagnostic

/-- A run of two steps that succeeds has an intermediate result. -/
theorem exists_of_bind_eq_ok {ε α β : Type} {first : Except ε α} {second : α → Except ε β}
    {result : β} (run : first >>= second = .ok result) :
    ∃ middle, first = .ok middle ∧ second middle = .ok result := by
  cases first with
  | error failure => contradiction
  | ok middle => exact ⟨middle, rfl, run⟩

/-- A step whose result is only wrapped up succeeds itself. -/
theorem exists_of_bind_pure_eq_ok {ε α β : Type} {first : Except ε α} {wrap : α → β} {result : β}
    (run : (do let value ← first; return wrap value) = .ok result) :
    ∃ value, first = .ok value ∧ wrap value = result := by
  obtain ⟨value, found, wrapped⟩ := exists_of_bind_eq_ok run
  exact ⟨value, found, Except.ok.inj wrapped⟩

/-- Attach a line to the fault of a statement. -/
def atLine {α : Type} (line : Nat) : Except Fault α → Except Diagnostic α
  | .ok value => .ok value
  | .error fault => .error (.source line fault)

@[simp] theorem atLine_ok {α : Type} (line : Nat) (value : α) :
    atLine line (.ok value) = .ok value := rfl

@[simp] theorem atLine_error {α : Type} (line : Nat) (fault : Fault) :
    atLine (α := α) line (.error fault) = .error (.source line fault) := rfl

theorem atLine_eq_ok_iff {α : Type} {line : Nat} {result : Except Fault α} {value : α} :
    atLine line result = .ok value ↔ result = .ok value := by
  cases result <;> simp

end SicAssembler
