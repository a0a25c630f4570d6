import SicAssembler.Layout
import SicAssembler.Listing
import SicAssembler.ObjectProgram
import SicAssembler.Text.Lines

/-! # The assembler

An assembler keeps what its last run found: name, place and length of the program, its symbols and
its listing. A run has two passes. The first one lays the program out; the second one generates
code from the layout that the state holds. Every operation returns its result together with the
state that it leaves, also when it fails.
-/

namespace SicAssembler

structure Assembler where
  machine : Machine
  name : String := ""
  start : Nat := 0
  length : Nat := 0
  symbols : SymbolTable := ∅
  listing : List ListingLine := []
deriving DecidableEq, Repr

namespace Assembler

def reset (assembler : Assembler) : Assembler := { machine := assembler.machine }

/-- Take over name, place and symbols of a layout. -/
def adopt (assembler : Assembler) (layout : Layout) : Assembler :=
  { assembler with name := layout.name, start := layout.start, symbols := layout.symbols }

def lastLine (lines : List SourceLine) : Nat := (lines.getLast?.map SourceLine.line).getD 0

/-- Lay a program out. A failure keeps the length and the listing of the last run. -/
def firstPass (assembler : Assembler) (lines : List SourceLine) :
    Except Diagnostic Unit × Assembler :=
  match Layout.ofLines lines with
  | .error halt => (.error halt.diagnostic, assembler.adopt halt.layout)
  | .ok layout =>
    match atLine (lastLine lines) layout.length with
    | .error diagnostic => (.error diagnostic, assembler.adopt layout)
    | .ok length => (.ok (), { assembler.adopt layout with length := length })

def header (assembler : Assembler) : Header := ⟨assembler.name, assembler.start, assembler.length⟩

def generate (assembler : Assembler) (lines : List SourceLine) :
    Except Diagnostic (List ObjectLine × ObjectProgram) := do
  let objectLines ←
    ObjectLine.generateAll assembler.machine assembler.symbols assembler.start lines
  let program ← ObjectProgram.ofLines assembler.header objectLines
  return (objectLines, program)

/-- Generate the object program. A failure leaves the state alone. -/
def secondPass (assembler : Assembler) (lines : List SourceLine) :
    Except Diagnostic ObjectProgram × Assembler :=
  match assembler.generate lines with
  | .error diagnostic => (.error diagnostic, assembler)
  | .ok (objectLines, program) =>
    (.ok program, { assembler with listing := objectLines.map ListingLine.ofObjectLine })

def runPasses (assembler : Assembler) (lines : List SourceLine) :
    Except Diagnostic ObjectProgram × Assembler :=
  match assembler.firstPass lines with
  | (.error diagnostic, next) => (.error diagnostic, next)
  | (.ok (), next) => next.secondPass lines

/-- Assemble the lines of a program, starting from a clean state. -/
def assemble (assembler : Assembler) (lines : List String) :
    Except Diagnostic ObjectProgram × Assembler :=
  match SourceLine.parseAll assembler.machine lines with
  | .error diagnostic => (.error diagnostic, assembler.reset)
  | .ok source => assembler.reset.runPasses source

def assembleText (assembler : Assembler) (text : String) :
    Except Diagnostic ObjectProgram × Assembler :=
  assembler.assemble (Text.lines text)

end Assembler

def assemble (machine : Machine) (lines : List String) : Except Diagnostic ObjectProgram :=
  ({ machine := machine : Assembler }.assemble lines).1

end SicAssembler
