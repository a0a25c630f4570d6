import SicAssembler.Machine

/-! # Catalogs of operations

Each machine has a catalog of instructions and directives, looked up by mnemonic. The SIC catalog
is part of the SIC/XE one: the 26 instructions keep their codes and their format.
-/

namespace SicAssembler

namespace Machine

/-- Mnemonics and codes of SIC; every instruction has format 3. -/
def sicTable : List (String × UInt8) :=
  [("ADD", 0x18), ("AND", 0x40), ("COMP", 0x28), ("DIV", 0x24), ("J", 0x3C), ("JEQ", 0x30),
    ("JGT", 0x34), ("JLT", 0x38), ("JSUB", 0x48), ("LDA", 0x00), ("LDCH", 0x50), ("LDL", 0x08),
    ("LDX", 0x04), ("MUL", 0x20), ("OR", 0x44), ("RD", 0xD8), ("RSUB", 0x4C), ("STA", 0x0C),
    ("STCH", 0x54), ("STL", 0x14), ("STSW", 0xE8), ("STX", 0x10), ("SUB", 0x1C), ("TD", 0xE0),
    ("TIX", 0x2C), ("WD", 0xDC)]

/-- Mnemonics, codes and formats of SIC/XE. -/
def xeTable : List (String × UInt8 × Format) :=
  [("ADD", 0x18, .three), ("ADDF", 0x58, .three), ("ADDR", 0x90, .two), ("AND", 0x40, .three),
    ("CLEAR", 0xB4, .two), ("COMP", 0x28, .three), ("COMPF", 0x88, .three), ("COMPR", 0xA0, .two),
    ("DIV", 0x24, .three), ("DIVF", 0x64, .three), ("DIVR", 0x9C, .two), ("FIX", 0xC4, .one),
    ("FLOAT", 0xC0, .one), ("HIO", 0xF4, .one), ("J", 0x3C, .three), ("JEQ", 0x30, .three),
    ("JGT", 0x34, .three), ("JLT", 0x38, .three), ("JSUB", 0x48, .three), ("LDA", 0x00, .three),
    ("LDB", 0x68, .three), ("LDCH", 0x50, .three), ("LDF", 0x70, .three), ("LDL", 0x08, .three),
    ("LDS", 0x6C, .three), ("LDT", 0x74, .three), ("LDX", 0x04, .three), ("LPS", 0xD0, .three),
    ("MUL", 0x20, .three), ("MULF", 0x60, .three), ("MULR", 0x98, .two), ("NORM", 0xC8, .one),
    ("OR", 0x44, .three), ("RD", 0xD8, .three), ("RMO", 0xAC, .two), ("RSUB", 0x4C, .three),
    ("SHIFTL", 0xA4, .two), ("SHIFTR", 0xA8, .two), ("SIO", 0xF0, .one), ("SSK", 0xEC, .three),
    ("STA", 0x0C, .three), ("STB", 0x78, .three), ("STCH", 0x54, .three), ("STF", 0x80, .three),
    ("STI", 0xD4, .three), ("STL", 0x14, .three), ("STS", 0x7C, .three), ("STSW", 0xE8, .three),
    ("STT", 0x84, .three), ("STX", 0x10, .three), ("SUB", 0x1C, .three), ("SUBF", 0x5C, .three),
    ("SUBR", 0x94, .two), ("SVC", 0xB0, .two), ("TD", 0xE0, .three), ("TIO", 0xF8, .one),
    ("TIX", 0x2C, .three), ("TIXR", 0xB8, .two), ("WD", 0xDC, .three)]

def instructions : Machine → List Instruction
  | .sic => sicTable.map fun (mnemonic, code) => ⟨mnemonic, code, .three⟩
  | .xe => xeTable.map fun (mnemonic, code, format) => ⟨mnemonic, code, format⟩

def directives : Machine → List Directive
  | .sic => [.start, .finish, .byte, .word, .reserveBytes, .reserveWords]
  | .xe => [.start, .finish, .byte, .word, .reserveBytes, .reserveWords, .base]

def operations (machine : Machine) : List Operation :=
  machine.instructions.map .machine ++ machine.directives.map .directive

/-- The operation with exactly this mnemonic. -/
def operation? (machine : Machine) (mnemonic : String) : Option Operation :=
  machine.operations.find? fun operation => operation.mnemonic == mnemonic

/-- The operations in the order of their mnemonics. -/
def catalog (machine : Machine) : List Operation :=
  machine.operations.mergeSort fun left right => left.mnemonic ≤ right.mnemonic

/-- A mnemonic names one operation. -/
theorem nodup_mnemonics (machine : Machine) :
    (machine.operations.map Operation.mnemonic).Nodup := by
  cases machine <;> decide +kernel

/-- The two low bits of a format 3 code are free for the addressing flags. -/
theorem code_mod_four (machine : Machine) :
    ∀ instruction ∈ machine.instructions, instruction.format = .three →
      instruction.code.toNat % 4 = 0 := by
  cases machine <;> decide +kernel

/-- Every SIC operation is the SIC/XE operation of the same name. -/
theorem operations_sic_subset_xe : ∀ operation ∈ sic.operations, operation ∈ xe.operations := by
  decide +kernel

end Machine

end SicAssembler
