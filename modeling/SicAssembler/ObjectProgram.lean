import SicAssembler.ObjectProgram.Packing

/-! # Object programs

An object program is a header, the text records of its memory, the modifications that moving it
needs, and the address where it starts. It is written as one record a line.
-/

namespace SicAssembler

structure ObjectProgram where
  header : Header
  texts : List TextRecord
  modifications : List Modification
  entry : Nat
deriving DecidableEq, Repr

namespace ObjectProgram

/-- The records of a program, in the order in which they are written. -/
def records (program : ObjectProgram) : List String :=
  program.header.render :: program.texts.map TextRecord.render ++
    program.modifications.map Modification.render ++ [renderEnd program.entry]

/-- Collect object lines into a program, which starts to run at its first address. -/
def ofLines (header : Header) (lines : List ObjectLine) : Except Diagnostic ObjectProgram := do
  let pieces ← Piece.ofLines false lines
  return {
    header := header
    texts := Piece.pack { start := header.start } pieces
    modifications := lines.filterMap ObjectLine.modification
    entry := header.start }

end ObjectProgram

end SicAssembler
