import SicAssembler.ObjectCode.Displacement
import SicAssembler.ObjectCode.MachineCode
import SicAssembler.ObjectProgram.Record
import SicAssembler.Machine.Register
import SicAssembler.Statement.Directive
import SicAssembler.SymbolTable

/-! # Encoding statements

Encoding resolves the operand of a statement against the symbol table and the place where the
statement stands. Names are looked up first; an immediate operand that names no label is read as a
decimal constant.
-/

namespace SicAssembler

/-- Where a statement stands and what the base register is known to hold there. -/
structure Site where
  address : Nat
  base : Nat
deriving DecidableEq, Repr

inductive Target where
  /-- The address of a label. -/
  | label (address : Nat)
  /-- An immediate constant. -/
  | constant (value : Nat)
deriving DecidableEq, Repr

/-- An instruction in numbers, with the field to change when the program is moved. -/
structure Encoded where
  code : MachineCode
  modification : Option Modification := none
deriving DecidableEq, Repr

namespace Encode

/-- Resolve the operand of a SIC/XE instruction. -/
def target (symbols : SymbolTable) (site : Site) (operand : Operand) : Except Fault Target :=
  match symbols.get? operand.key with
  | some address => .ok (.label address)
  | none =>
    match operand.isImmediate, Numeral.readDecimal operand.key with
    | true, .ok value =>
      match Numeral.toWord? value with
      | some word => .ok (.constant word)
      | none => .error (.invalidOperand operand.text .negativeImmediate)
    | _, _ => .error (.unresolvedSymbol operand.key site.address)

/-- The value that `BASE` announces for the base register. -/
def baseValue (symbols : SymbolTable) (site : Site) (statement : Statement) :
    Except Fault Nat := do
  let operand ← statement.required
  match symbols.get? operand.key with
  | some address => .ok address
  | none =>
    match Numeral.readDecimal operand.key with
    | .ok value =>
      match Numeral.toWord? value with
      | some word => .ok word
      | none => .error (.invalidOperand operand.text .negativeBase)
    | .error _ => .error (.unresolvedSymbol operand.key site.address)

def registerCode (name : String) : Except Fault Nat :=
  match Register.ofName? name with
  | some register => .ok register.code
  | none => .error (.invalidOperand name .unknownRegister)

/-- A decimal number in a closed range. -/
def smallNumber (least greatest : Nat) (text : String) : Except Fault Nat :=
  match Numeral.readDecimal text with
  | .ok value =>
    if (least : Int) ≤ value ∧ value ≤ greatest then .ok value.toNat
    else .error (.invalidOperand text (.numberRange least greatest))
  | .error _ => .error (.invalidOperand text (.numberRange least greatest))

/-- The first nibble of a format 2 instruction: a register, or the number of `SVC`. -/
def firstNibble (instruction : Instruction) (text : String) : Except Fault Nat :=
  if instruction.mnemonic = "SVC" then smallNumber 0 15 text else registerCode text

/-- The second nibble of a format 2 instruction: a register, or the count of a shift less one. -/
def secondNibble (instruction : Instruction) (text : String) : Except Fault Nat := do
  if instruction.mnemonic = "SHIFTL" ∨ instruction.mnemonic = "SHIFTR" then
    Address.sub (← smallNumber 1 16 text) 1
  else registerCode text

/-- Format 1 has no operand. -/
def format1 (instruction : Instruction) (statement : Statement) : Except Fault MachineCode :=
  match statement.operand with
  | some operand => .error (.invalidOperand operand.text (.unwanted instruction.mnemonic))
  | none => .ok (.format1 instruction.code)

/-- Format 2 has one or two parts; a missing second one counts as 0. -/
def format2 (instruction : Instruction) (statement : Statement) : Except Fault MachineCode := do
  let operand ← statement.required
  match operand.parts with
  | (first, []) => return .format2 instruction.code (← firstNibble instruction first) 0
  | (first, [second]) =>
    let high ← firstNibble instruction first
    let low ← secondNibble instruction second
    return .format2 instruction.code high low
  | _ => .error (.invalidOperand operand.text .tooManyRegisters)

/-- The flags that a displacement adds to those of the operand. -/
def withDisplacement (flags : Flags) (displacement : Displacement) : Flags :=
  if displacement.isPcRelative then { flags with p := true } else { flags with b := true }

/-- Format 3 reaches a label by a displacement and holds a constant itself. -/
def format3 (symbols : SymbolTable) (site : Site) (instruction : Instruction)
    (statement : Statement) : Except Fault MachineCode :=
  let flags := Flags.ofOperand statement.operand
  match statement.operand with
  | none => .ok (.format3 instruction.code flags 0)
  | some operand => do
    match ← target symbols site operand with
    | .constant value =>
      if value < 0x1000 then .ok (.format3 instruction.code flags value)
      else .error (.outOfReach operand.text site.address)
    | .label address =>
      let next ← Address.add site.address 3
      match Displacement.select? address next site.base with
      | some displacement =>
        let flags := withDisplacement flags displacement
        .ok (.format3 instruction.code flags displacement.field)
      | none => .error (.outOfReach operand.text site.address)

/-- Format 4 holds the whole address. Unless the operand is immediate, the address moves with the
program. -/
def format4 (symbols : SymbolTable) (site : Site) (instruction : Instruction)
    (statement : Statement) : Except Fault Encoded :=
  let flags := { Flags.ofOperand statement.operand with e := true }
  match statement.operand with
  | none => .ok ⟨.format4 instruction.code flags 0, none⟩
  | some operand => do
    let address := match ← target symbols site operand with
      | .label address => address
      | .constant value => value
    if 0x100000 ≤ address then .error (.invalidOperand operand.text .addressOver20Bits)
    else if operand.isImmediate then .ok ⟨.format4 instruction.code flags address, none⟩
    else
      let field ← Address.add site.address 1
      .ok ⟨.format4 instruction.code flags address, some ⟨field, 5⟩⟩

/-- SIC instructions hold an absolute address of fifteen bits. -/
def absolute (symbols : SymbolTable) (site : Site) (instruction : Instruction)
    (statement : Statement) : Except Fault MachineCode :=
  match statement.operand with
  | none => .ok (.absolute instruction.code false 0)
  | some operand =>
    if operand.isImmediate || operand.isIndirect then
      .error (.invalidOperand operand.text .modeNeedsXe)
    else
      match symbols.get? operand.key with
      | none => .error (.unresolvedSymbol operand.key site.address)
      | some address =>
        if address < 0x8000 then .ok (.absolute instruction.code operand.isIndexed address)
        else .error (.invalidOperand operand.text .addressOver15Bits)

/-- Encode a machine instruction in the format that the machine and the statement choose. -/
def instruction (machine : Machine) (symbols : SymbolTable) (site : Site)
    (instruction : Instruction) (statement : Statement) : Except Fault Encoded :=
  match machine, instruction.format with
  | .sic, _ => return { code := ← absolute symbols site instruction statement }
  | .xe, .one => return { code := ← format1 instruction statement }
  | .xe, .two => return { code := ← format2 instruction statement }
  | .xe, .three =>
    if statement.extended then format4 symbols site instruction statement
    else return { code := ← format3 symbols site instruction statement }

/-- The three bytes of `WORD`, a negative number in two's complement. -/
def word (statement : Statement) : Except Fault (List UInt8) := do
  let value ← statement.wordValue
  return BigEndian.encode Statement.wordSize (value % 0x1000000).toNat

end Encode

end SicAssembler
