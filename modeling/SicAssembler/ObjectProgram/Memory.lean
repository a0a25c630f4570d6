import SicAssembler.ObjectProgram

/-! # Memory of a loaded program

Loading a program puts the bytes of its text records at their addresses. Moving it to another place
moves every byte, and adds the distance to every field that a modification names.
-/

namespace SicAssembler

abbrev Cell := Nat × UInt8

/-- Bytes at consecutive addresses. -/
def cellsFrom (address : Nat) : List UInt8 → List Cell
  | [] => []
  | byte :: rest => (address, byte) :: cellsFrom (address + 1) rest

def TextRecord.cells (record : TextRecord) : List Cell := cellsFrom record.start record.bytes

def ObjectLine.cells (line : ObjectLine) : List Cell := cellsFrom line.address line.bytes

def ObjectProgram.cells (program : ObjectProgram) : List Cell :=
  program.texts.flatMap TextRecord.cells

/-- What memory holds at each address; `none` where nothing was loaded. -/
abbrev Memory := Nat → Option UInt8

namespace Memory

def ofCells (cells : List Cell) : Memory := fun address => cells.lookup address

/-- The twenty bits of an address field: the low half of its first byte and two more bytes. -/
def field? (memory : Memory) (address : Nat) : Option Nat := do
  let high ← memory address
  let middle ← memory (address + 1)
  let low ← memory (address + 2)
  return high.toNat % 16 * 0x10000 + middle.toNat * 0x100 + low.toNat

/-- Replace the twenty bits of an address field. The high half of its first byte stays. -/
def setField (memory : Memory) (address value : Nat) : Memory := fun query =>
  if query = address then
    (memory query).map fun high => UInt8.ofNat (high.toNat / 16 * 16 + value / 0x10000 % 16)
  else if query = address + 1 then
    (memory query).map fun _ => UInt8.ofNat (value / 0x100 % 256)
  else if query = address + 2 then (memory query).map fun _ => UInt8.ofNat (value % 256)
  else memory query

/-- Add a distance to the field that a modification names. -/
def addToField (distance : Nat) (memory : Memory) (modification : Modification) : Memory :=
  match memory.field? modification.address with
  | some value => memory.setField modification.address (value + distance)
  | none => memory

def move (distance : Nat) (memory : Memory) : Memory := fun address =>
  if distance ≤ address then memory (address - distance) else none

end Memory

namespace ObjectProgram

/-- The memory of a program loaded where it was assembled for. -/
def memory (program : ObjectProgram) : Memory := Memory.ofCells program.cells

/-- The memory of a program loaded at a distance above the place it was assembled for. -/
def relocated (distance : Nat) (program : ObjectProgram) : Memory :=
  Memory.move distance
    (program.modifications.foldl (Memory.addToField distance) program.memory)

end ObjectProgram

@[simp] theorem cellsFrom_nil (address : Nat) : cellsFrom address [] = [] := rfl

@[simp] theorem cellsFrom_cons (address : Nat) (byte : UInt8) (rest : List UInt8) :
    cellsFrom address (byte :: rest) = (address, byte) :: cellsFrom (address + 1) rest := rfl

/-- Adjacent byte strings fill the same cells as their concatenation. -/
theorem cellsFrom_append (address : Nat) (front back : List UInt8) :
    cellsFrom address (front ++ back) =
      cellsFrom address front ++ cellsFrom (address + front.length) back := by
  induction front generalizing address with
  | nil => simp
  | cons byte rest ih => simp [ih, Nat.add_comm, Nat.add_left_comm]

end SicAssembler
