/-! # The two machines

SIC has one instruction format and absolute addresses of 15 bits. SIC/XE adds formats of one, two
and four bytes, relative addressing and registers. The names here are those of the assembly
language: an operation is a machine instruction or a directive to the assembler.
-/

namespace SicAssembler

inductive Machine where
  | sic
  | xe
deriving DecidableEq, Repr, Inhabited

/-- The format in the catalog. Format 4 is format 3 extended, chosen for each statement. -/
inductive Format where
  | one
  | two
  | three
deriving DecidableEq, Repr

def Format.size : Format → Nat
  | .one => 1
  | .two => 2
  | .three => 3

/-- Instructions to the assembler itself. -/
inductive Directive where
  /-- `START` names the program and says where it begins. -/
  | start
  /-- `END` closes the program. -/
  | finish
  /-- `BYTE` stores a literal. -/
  | byte
  /-- `WORD` stores a number in three bytes. -/
  | word
  /-- `RESB` leaves bytes unused. -/
  | reserveBytes
  /-- `RESW` leaves words of three bytes unused. -/
  | reserveWords
  /-- `BASE` tells what the base register holds from here on. -/
  | base
deriving DecidableEq, Repr

def Directive.mnemonic : Directive → String
  | .start => "START"
  | .finish => "END"
  | .byte => "BYTE"
  | .word => "WORD"
  | .reserveBytes => "RESB"
  | .reserveWords => "RESW"
  | .base => "BASE"

structure Instruction where
  mnemonic : String
  code : UInt8
  format : Format
deriving DecidableEq, Repr

/-- What a statement asks for. -/
inductive Operation where
  | machine (instruction : Instruction)
  | directive (kind : Directive)
deriving DecidableEq, Repr

def Operation.mnemonic : Operation → String
  | .machine instruction => instruction.mnemonic
  | .directive kind => kind.mnemonic

end SicAssembler
