import SicAssembler.ObjectCode.Encode
import SicAssembler.SourceLine

/-! # Object lines

An object line is a source line with the address and the object code that were generated for it.
Code is generated from top to bottom: the address grows by the size of each statement, and `BASE`
changes what the base register is known to hold for the statements below it.
-/

namespace SicAssembler

structure ObjectLine where
  source : SourceLine
  address : Nat
  bytes : List UInt8
  modification : Option Modification
deriving DecidableEq, Repr

/-- What a statement generates, and what the base register is known to hold after it. -/
structure Generated where
  bytes : List UInt8 := []
  modification : Option Modification := none
  base : Nat
deriving DecidableEq, Repr

def Statement.generate (machine : Machine) (symbols : SymbolTable) (site : Site)
    (statement : Statement) : Except Fault Generated :=
  match statement.operation with
  | .machine instruction => do
    let encoded ← Encode.instruction machine symbols site instruction statement
    return ⟨encoded.code.bytes, encoded.modification, site.base⟩
  | .directive .word => do return { bytes := ← Encode.word statement, base := site.base }
  | .directive .byte => do
    return { bytes := (← statement.byteLiteral).bytes, base := site.base }
  | .directive .base => do return { base := ← Encode.baseValue symbols site statement }
  | .directive .start => .ok { base := site.base }
  | .directive .finish => .ok { base := site.base }
  | .directive .reserveBytes => .ok { base := site.base }
  | .directive .reserveWords => .ok { base := site.base }

namespace ObjectLine

/-- Generate one line at a site. The result is the line and the site behind it. -/
def generate (machine : Machine) (symbols : SymbolTable) (site : Site) (source : SourceLine) :
    Except Fault (ObjectLine × Site) := do
  let size ← source.statement.size
  let generated ← source.statement.generate machine symbols site
  let next ← Address.add site.address size
  return (⟨source, site.address, generated.bytes, generated.modification⟩, ⟨next, generated.base⟩)

theorem source_of_generate {machine : Machine} {symbols : SymbolTable} {site next : Site}
    {source : SourceLine} {line : ObjectLine}
    (generated : generate machine symbols site source = .ok (line, next)) :
    line.source = source := by
  obtain ⟨size, _, afterSize⟩ := exists_of_bind_eq_ok generated
  obtain ⟨code, _, afterCode⟩ := exists_of_bind_eq_ok afterSize
  obtain ⟨following, _, made⟩ := exists_of_bind_eq_ok afterCode
  cases made
  rfl

/-- Generate lines one after another, from a site on. -/
def generateFrom (machine : Machine) (symbols : SymbolTable) :
    Site → List SourceLine → Except Diagnostic (List ObjectLine)
  | _, [] => .ok []
  | site, source :: rest =>
    match generate machine symbols site source with
    | .error fault => .error (.source source.line fault)
    | .ok (line, next) =>
      match generateFrom machine symbols next rest with
      | .error diagnostic => .error diagnostic
      | .ok lines => .ok (line :: lines)

/-- Generate a program that starts at an address. The base register is taken to hold 0 until the
first `BASE`. -/
def generateAll (machine : Machine) (symbols : SymbolTable) (start : Nat)
    (lines : List SourceLine) : Except Diagnostic (List ObjectLine) :=
  generateFrom machine symbols ⟨start, 0⟩ (SourceLine.throughEnd lines)

/-- Every source line has its object line, in the same order. -/
theorem map_source_of_generateFrom {machine : Machine} {symbols : SymbolTable} {site : Site}
    {sources : List SourceLine} {lines : List ObjectLine}
    (generated : generateFrom machine symbols site sources = .ok lines) :
    lines.map ObjectLine.source = sources := by
  induction sources generalizing site lines with
  | nil => cases generated; rfl
  | cons source rest ih =>
    simp only [generateFrom] at generated
    split at generated
    · contradiction
    · next line next made =>
      split at generated
      · contradiction
      · next others generatedRest =>
        cases generated
        rw [List.map_cons, ih generatedRest, source_of_generate made]

end ObjectLine

end SicAssembler
