import SicAssembler.SourceLine
import SicAssembler.Statement.Directive
import SicAssembler.SymbolTable

/-! # Layouts

A layout says where the statements of a program stand: its name, its first address, the address
behind the last statement, and the addresses of its labels. Statements are placed one after
another. If one cannot be placed, the layout reached so far is part of the result.
-/

namespace SicAssembler

/-- The places of the statements seen so far. -/
structure Layout where
  name : String := ""
  start : Nat := 0
  /-- The address of the next statement. -/
  counter : Nat := 0
  symbols : SymbolTable := ∅
deriving DecidableEq, Repr

namespace Layout

/-- Why placing stopped, and the layout at that moment. -/
structure Halt where
  diagnostic : Diagnostic
  layout : Layout
deriving DecidableEq, Repr

def halt {α : Type} (layout : Layout) (line : SourceLine) (fault : Fault) : Except Halt α :=
  .error ⟨.source line.line fault, layout⟩

/-- `START` sets name and address of the program. It has to be the first statement. -/
def applyStart (first : Bool) (layout : Layout) (line : SourceLine) : Except Halt Layout :=
  if line.statement.operation = .directive .start then
    if first then
      match line.statement.startAddress with
      | .ok address =>
        .ok { layout with
          start := address, counter := address, name := line.statement.label.getD "" }
      | .error fault => layout.halt line fault
    else layout.halt line (.invalidOpcode Directive.start.mnemonic .startNotFirst)
  else .ok layout

/-- A label gets the address of its statement. -/
def defineLabel (layout : Layout) (line : SourceLine) : Except Halt Layout :=
  match line.statement.label with
  | none => .ok layout
  | some label =>
    match layout.symbols.insert label layout.counter with
    | .ok symbols => .ok { layout with symbols := symbols }
    | .error _ => layout.halt line (.duplicateLabel label layout.counter)

/-- The next statement stands behind this one. -/
def advance (layout : Layout) (line : SourceLine) : Except Halt Layout :=
  match line.statement.size with
  | .error fault => layout.halt line fault
  | .ok size =>
    if layout.counter + size < Address.limit then
      .ok { layout with counter := layout.counter + size }
    else layout.halt line line.statement.overflow

def place (first : Bool) (layout : Layout) (line : SourceLine) : Except Halt Layout := do
  let layout ← layout.applyStart first line
  let layout ← layout.defineLabel line
  layout.advance line

/-- Place statements one after another, of which none is the first of the program. -/
def placeAll : Layout → List SourceLine → Except Halt Layout
  | layout, [] => .ok layout
  | layout, line :: rest => do (← layout.place false line).placeAll rest

def ofLines (lines : List SourceLine) : Except Halt Layout :=
  match SourceLine.throughEnd lines with
  | [] => .ok {}
  | first :: rest => do (← place true {} first).placeAll rest

def length (layout : Layout) : Except Fault Nat := Address.sub layout.counter layout.start

theorem placeAll_append (layout : Layout) (front back : List SourceLine) :
    layout.placeAll (front ++ back) = (layout.placeAll front).bind (·.placeAll back) := by
  induction front generalizing layout with
  | nil => rfl
  | cons line rest ih =>
    simp only [List.cons_append, placeAll, bind, Except.bind]
    cases layout.place false line with
    | error halt => rfl
    | ok next => exact ih next

end Layout

end SicAssembler
