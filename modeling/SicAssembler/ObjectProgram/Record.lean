import SicAssembler.Text.Column

/-! # Records of an object program

An object program is text. Its records start with a letter: `H` for the program's name and place,
`T` for bytes in memory, `M` for a field that has to be changed when the program is moved, `E` for
the address where it starts to run.
-/

namespace SicAssembler

def maxTextBytes : Nat := 30

/-- Name, first address and length of a program. -/
structure Header where
  name : String
  start : Nat
  length : Nat
deriving DecidableEq, Repr

/-- The header record; a name is cut or filled to six characters. -/
def Header.render (header : Header) : String :=
  "H" ++ Text.alignLeft 6 (String.ofList (header.name.toList.take 6)) ++
    Text.hexColumn 6 header.start ++ Text.hexColumn 6 header.length

/-- Consecutive bytes in memory. -/
structure TextRecord where
  start : Nat
  bytes : List UInt8
deriving DecidableEq, Repr

/-- A text record: address, byte count and bytes. -/
def TextRecord.render (record : TextRecord) : String :=
  "T" ++ Text.hexColumn 6 record.start ++ Text.hexColumn 2 record.bytes.length ++
    Text.hexOfBytes record.bytes

/-- A field to which the load address is added: its first byte and its size in half bytes. -/
structure Modification where
  address : Nat
  halfBytes : Nat
deriving DecidableEq, Repr

def Modification.render (modification : Modification) : String :=
  "M" ++ Text.hexColumn 6 modification.address ++ Text.hexColumn 2 modification.halfBytes

/-- The end record with the address where the program starts. -/
def renderEnd (entry : Nat) : String := "E" ++ Text.hexColumn 6 entry

example : (Header.mk "PROGRAMME" 0x1000 0x107A).render = "HPROGRA00100000107A" := by decide
example : (TextRecord.mk 0x1000 [0x17, 0x20, 0x2D]).render = "T0010000317202D" := by decide
example : (Modification.mk 7 5).render = "M00000705" := by decide

end SicAssembler
