import SicAssembler.Proofs.FirstPass

/-! # Numbers and texts of lines

The passes use the number of a line only to report it, and the text of a line only for the listing.
Giving the lines of a program other numbers and other texts therefore gives errors and listings with
these numbers and texts, and leaves everything else as it is.
-/

namespace SicAssembler

private theorem mapError_bind {ε ε' α β : Type} (first : Except ε α) (second : α → Except ε β)
    (report : ε → ε') :
    (first >>= second).mapError report =
      first.mapError report >>= fun value => (second value).mapError report := by
  cases first <;> rfl

private theorem mapError_atLine {α : Type} (move : Nat → Nat) (line : Nat)
    (result : Except Fault α) :
    (atLine line result).mapError (Diagnostic.mapLine move) = atLine (move line) result := by
  cases result <;> rfl

theorem mapError_mapLine_id {α : Type} (result : Except Diagnostic α) :
    result.mapError (Diagnostic.mapLine id) = result := by
  cases result with
  | error diagnostic => cases diagnostic <;> rfl
  | ok value => rfl

def SourceLine.relabel (move : Nat → Nat) (retell : String → String) (line : SourceLine) :
    SourceLine :=
  ⟨move line.line, retell line.source, line.statement⟩

def ObjectLine.relabel (move : Nat → Nat) (retell : String → String) (line : ObjectLine) :
    ObjectLine :=
  { line with source := line.source.relabel move retell }

def Layout.Halt.mapLine (move : Nat → Nat) (halt : Halt) : Halt :=
  { halt with diagnostic := halt.diagnostic.mapLine move }

variable (move : Nat → Nat) (retell : String → String)

private theorem SourceLine.throughEnd_map_relabel (lines : List SourceLine) :
    throughEnd (lines.map (relabel move retell)) =
      (throughEnd lines).map (relabel move retell) := by
  induction lines with
  | nil => rfl
  | cons line rest ih =>
    have ends : (line.relabel move retell).isEnd = line.isEnd := rfl
    rw [List.map_cons, throughEnd, throughEnd, ends, ih]
    split <;> rfl

namespace Layout

private theorem applyStart_relabel (first : Bool) (layout : Layout) (line : SourceLine) :
    layout.applyStart first (line.relabel move retell) =
      (layout.applyStart first line).mapError (Halt.mapLine move) := by
  by_cases isStart : line.statement.operation = .directive .start
  · simp only [applyStart, SourceLine.relabel, isStart, if_true]
    cases first with
    | true => cases line.statement.startAddress <;> rfl
    | false => rfl
  · simp only [applyStart, SourceLine.relabel, isStart, if_false]
    rfl

private theorem defineLabel_relabel (layout : Layout) (line : SourceLine) :
    layout.defineLabel (line.relabel move retell) =
      (layout.defineLabel line).mapError (Halt.mapLine move) := by
  simp only [defineLabel, SourceLine.relabel]
  cases line.statement.label with
  | none => rfl
  | some label =>
    simp only
    cases layout.symbols.insert label layout.counter <;> rfl

private theorem advance_relabel (layout : Layout) (line : SourceLine) :
    layout.advance (line.relabel move retell) =
      (layout.advance line).mapError (Halt.mapLine move) := by
  simp only [advance, SourceLine.relabel]
  cases line.statement.size with
  | error fault => rfl
  | ok size =>
    simp only
    split <;> rfl

private theorem place_relabel (first : Bool) (layout : Layout) (line : SourceLine) :
    layout.place first (line.relabel move retell) =
      (layout.place first line).mapError (Halt.mapLine move) := by
  simp only [place, mapError_bind, applyStart_relabel, defineLabel_relabel, advance_relabel]

private theorem placeAll_map_relabel (layout : Layout) (lines : List SourceLine) :
    layout.placeAll (lines.map (SourceLine.relabel move retell)) =
      (layout.placeAll lines).mapError (Halt.mapLine move) := by
  induction lines generalizing layout with
  | nil => rfl
  | cons line rest ih => simp only [List.map_cons, placeAll, mapError_bind, place_relabel, ih]

/-- The layout of a program knows nothing of its numbers and texts. -/
theorem ofLines_map_relabel (lines : List SourceLine) :
    ofLines (lines.map (SourceLine.relabel move retell)) =
      (ofLines lines).mapError (Halt.mapLine move) := by
  rw [ofLines, ofLines, SourceLine.throughEnd_map_relabel]
  cases SourceLine.throughEnd lines with
  | nil => rfl
  | cons first rest =>
    simp only [List.map_cons, mapError_bind, place_relabel, placeAll_map_relabel]

end Layout

namespace ObjectLine

variable {machine : Machine} {symbols : SymbolTable}

private theorem generate_relabel (site : Site) (source : SourceLine) :
    generate machine symbols site (source.relabel move retell) =
      (generate machine symbols site source).map fun made =>
        (made.1.relabel move retell, made.2) := by
  simp only [generate, SourceLine.relabel]
  cases source.statement.size with
  | error fault => rfl
  | ok size =>
    cases source.statement.generate machine symbols site with
    | error fault => rfl
    | ok generated =>
      simp only [bind, Except.bind]
      cases Address.add site.address size <;> rfl

/-- The object code of a program knows nothing of its numbers and texts. -/
theorem generateFrom_map_relabel (site : Site) (sources : List SourceLine) :
    generateFrom machine symbols site (sources.map (SourceLine.relabel move retell)) =
      ((generateFrom machine symbols site sources).map (List.map (relabel move retell))).mapError
        (Diagnostic.mapLine move) := by
  induction sources generalizing site with
  | nil => rfl
  | cons source rest ih =>
    simp only [List.map_cons, generateFrom, generate_relabel]
    cases generate machine symbols site source with
    | error fault => rfl
    | ok made =>
      obtain ⟨line, next⟩ := made
      simp only [Except.map, ih]
      cases generateFrom machine symbols next rest <;> rfl

end ObjectLine

private theorem Piece.ofLines_map_relabel (gap : Bool) (lines : List ObjectLine) :
    ofLines gap (lines.map (ObjectLine.relabel move retell)) =
      (ofLines gap lines).mapError (Diagnostic.mapLine move) := by
  induction lines generalizing gap with
  | nil => rfl
  | cons line rest ih =>
    simp only [List.map_cons, ofLines, mapError_bind, mapError_atLine, ih]
    rfl

private theorem ObjectProgram.ofLines_map_relabel (header : Header) (lines : List ObjectLine) :
    ofLines header (lines.map (ObjectLine.relabel move retell)) =
      (ofLines header lines).mapError (Diagnostic.mapLine move) := by
  simp only [ofLines, Piece.ofLines_map_relabel, mapError_bind, List.filterMap_map]
  rfl

namespace Assembler

theorem firstPass_map_relabel (state : Assembler) (lines : List SourceLine) :
    state.firstPass (lines.map (SourceLine.relabel move retell)) =
      ((state.firstPass lines).1.mapError (Diagnostic.mapLine move),
        (state.firstPass lines).2) := by
  rw [firstPass_eq, firstPass_eq, Layout.ofLines_map_relabel]
  cases Layout.ofLines lines <;> rfl

theorem generate_map_relabel (state : Assembler) (lines : List SourceLine) :
    state.generate (lines.map (SourceLine.relabel move retell)) =
      ((state.generate lines).map fun made =>
        (made.1.map (ObjectLine.relabel move retell), made.2)).mapError
          (Diagnostic.mapLine move) := by
  simp only [generate, ObjectLine.generateAll, SourceLine.throughEnd_map_relabel,
    ObjectLine.generateFrom_map_relabel]
  cases ObjectLine.generateFrom state.machine state.symbols ⟨state.start, 0⟩
      (SourceLine.throughEnd lines) with
  | error diagnostic => rfl
  | ok objectLines =>
    simp only [Except.map, Except.mapError, bind, Except.bind, ObjectProgram.ofLines_map_relabel]
    cases ObjectProgram.ofLines state.header objectLines <;> rfl

end Assembler

end SicAssembler
