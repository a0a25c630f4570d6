import SicAssembler.Proofs.FirstPass
import SicAssembler.Proofs.Generation

/-! # The end of a program

Both passes stop at the first `END`, so they see the program proper and nothing behind it. An `END`
without a label takes no room, defines nothing and has no code. Writing it at the end of a program
that has none adds a line to the listing and changes nothing else.
-/

namespace SicAssembler

namespace SourceLine

/-- What can be read as a whole can be read in front, and the lines in front come first. -/
theorem exists_of_parseAll_append {machine : Machine} {front back : List String}
    {source : List SourceLine} (parsed : parseAll machine (front ++ back) = .ok source) :
    ∃ first second, parseAll machine front = .ok first ∧ source = first ++ second := by
  rw [parseAll, parseFrom_append] at parsed
  obtain ⟨first, parsedFront, afterFront⟩ := exists_of_bind_eq_ok parsed
  obtain ⟨second, _, rfl⟩ := exists_of_bind_pure_eq_ok afterFront
  exact ⟨first, second, parsedFront, rfl⟩

/-- Every statement among the texts of a program is on one of its lines. -/
theorem exists_mem_of_parseFrom {machine : Machine} {number : Nat} {texts : List String}
    {lines : List SourceLine} (parsed : parseFrom machine number texts = .ok lines) {text : String}
    {statement : Statement} (member : text ∈ texts)
    (read : Statement.parse machine text = .ok (some statement)) :
    ∃ line ∈ lines, line.statement = statement := by
  induction texts generalizing number lines with
  | nil => contradiction
  | cons first rest ih =>
    obtain ⟨found, others, readFirst, parsedRest, rfl⟩ := exists_of_parseFrom_cons parsed
    rcases List.mem_cons.mp member with rfl | inRest
    · cases read.symm.trans readFirst
      exact ⟨_, List.mem_append_left _ List.mem_cons_self, rfl⟩
    · obtain ⟨line, later, same⟩ := ih parsedRest inRest
      exact ⟨line, List.mem_append_right _ later, same⟩

/-- Lines without an `END` all belong to the program. -/
theorem throughEnd_append_of_forall {front : List SourceLine}
    (unclosed : ∀ line ∈ front, line.isEnd = false) (back : List SourceLine) :
    throughEnd (front ++ back) = front ++ throughEnd back := by
  induction front with
  | nil => rfl
  | cons line rest ih =>
    obtain ⟨here, later⟩ := List.forall_mem_cons.mp unclosed
    simp [throughEnd, here, ih later]

theorem throughEnd_of_forall {lines : List SourceLine}
    (unclosed : ∀ line ∈ lines, line.isEnd = false) : throughEnd lines = lines := by
  simpa [throughEnd] using throughEnd_append_of_forall unclosed []

end SourceLine

namespace Layout

/-- An `END` without a label leaves a layout as it is. -/
theorem place_of_isEnd {layout : Layout} {last : SourceLine} (isEnd : last.isEnd = true)
    (unlabelled : last.statement.label = none) (below : layout.counter < Address.limit)
    (first : Bool) : layout.place first last = .ok layout := by
  have notStart : last.statement.operation ≠ .directive .start := by
    intro isStart
    simp [SourceLine.isEnd, isStart] at isEnd
  have size := SourceLine.size_of_isEnd isEnd
  simp [place, applyStart_of_ne notStart, defineLabel, unlabelled, advance, size, below, bind,
    Except.bind]

/-- Lines behind lines that do not end the program are placed from the layout of those. -/
theorem ofLines_cons_append {first : SourceLine} {rest : List SourceLine}
    (unclosed : ∀ line ∈ first :: rest, line.isEnd = false) (more : List SourceLine) :
    ofLines (first :: rest ++ more) =
      (ofLines (first :: rest)).bind (·.placeAll (SourceLine.throughEnd more)) := by
  rw [ofLines, ofLines, SourceLine.throughEnd_append_of_forall unclosed,
    SourceLine.throughEnd_of_forall unclosed]
  change (place true {} first).bind (·.placeAll (rest ++ SourceLine.throughEnd more)) =
    ((place true {} first).bind (·.placeAll rest)).bind _
  cases place true {} first with
  | error failure => rfl
  | ok layout => exact placeAll_append layout rest _

/-- Closing a program with an `END` that has no label keeps its layout, and a failure remains the
same failure. -/
theorem ofLines_append_of_isEnd {lines : List SourceLine} {last : SourceLine}
    (unclosed : ∀ line ∈ lines, line.isEnd = false) (isEnd : last.isEnd = true)
    (unlabelled : last.statement.label = none) : ofLines (lines ++ [last]) = ofLines lines := by
  have closed : SourceLine.throughEnd [last] = [last] := by simp [SourceLine.throughEnd, isEnd]
  cases lines with
  | nil =>
    rw [List.nil_append, ofLines, closed]
    simp only [place_of_isEnd isEnd unlabelled (show Layout.counter {} < Address.limit by decide),
      bind, Except.bind, placeAll]
    rfl
  | cons first rest =>
    rw [ofLines_cons_append unclosed, closed]
    cases placed : ofLines (first :: rest) with
    | error failure => rfl
    | ok layout =>
      obtain ⟨_, _, _, below, _⟩ := sizes_of_ofLines placed
      simp only [Except.bind, placeAll, place_of_isEnd isEnd unlabelled below, bind]

end Layout

namespace ObjectLine

variable {machine : Machine} {symbols : SymbolTable} {last : SourceLine}

private theorem generate_of_isEnd (isEnd : last.isEnd = true) {site : Site}
    (below : site.address < Address.limit) :
    generate machine symbols site last = .ok (⟨last, site.address, [], none⟩, site) := by
  have operation : last.statement.operation = .directive .finish := by
    simpa [SourceLine.isEnd] using isEnd
  refine generate_eq_ok_iff.mpr ⟨rfl, 0, SourceLine.size_of_isEnd isEnd, rfl, ?_, rfl, below⟩
  rw [Statement.generate, operation]

/-- `END` adds a line without code, and no failure. -/
theorem generateFrom_append_of_isEnd (isEnd : last.isEnd = true) (site : Site)
    (below : site.address < Address.limit) (sources : List SourceLine) :
    (∃ diagnostic, generateFrom machine symbols site sources = .error diagnostic ∧
      generateFrom machine symbols site (sources ++ [last]) = .error diagnostic) ∨
    ∃ lines address, generateFrom machine symbols site sources = .ok lines ∧
      generateFrom machine symbols site (sources ++ [last]) =
        .ok (lines ++ [⟨last, address, [], none⟩]) := by
  induction sources generalizing site with
  | nil =>
    refine .inr ⟨[], site.address, rfl, ?_⟩
    simp [generateFrom, generate_of_isEnd isEnd below]
  | cons source rest ih =>
    simp only [List.cons_append, generateFrom]
    cases generated : generate machine symbols site source with
    | error fault => exact .inl ⟨_, rfl, rfl⟩
    | ok made =>
      obtain ⟨line, next⟩ := made
      obtain ⟨_, _, madeHere⟩ := generate_eq_ok_iff.mp generated
      rcases ih next madeHere.bounded with
        ⟨diagnostic, failed, failedToo⟩ | ⟨lines, address, done, doneToo⟩
      · simp only [failed, failedToo]
        exact .inl ⟨diagnostic, rfl, rfl⟩
      · simp only [done, doneToo]
        exact .inr ⟨line :: lines, address, rfl, rfl⟩

end ObjectLine

/-- A last line without code adds no piece. -/
theorem Piece.ofLines_append_of_empty {last : ObjectLine} (empty : last.bytes = []) (gap : Bool)
    (lines : List ObjectLine) : ofLines gap (lines ++ [last]) = ofLines gap lines := by
  induction lines generalizing gap with
  | nil => simp [ofLines, empty, chunks, chunksWith, place, bind, Except.bind, pure, Except.pure]
  | cons line rest ih => simp only [List.cons_append, ofLines, ih]

private theorem ObjectProgram.ofLines_append_of_empty {last : ObjectLine} (empty : last.bytes = [])
    (still : last.modification = none) (header : Header) (lines : List ObjectLine) :
    ofLines header (lines ++ [last]) = ofLines header lines := by
  simp [ofLines, Piece.ofLines_append_of_empty empty, still]

namespace Assembler

/-- Two lists of lines with the same program proper are assembled alike. -/
theorem runPasses_eq_of_throughEnd (state : Assembler) {lines others : List SourceLine}
    (same : SourceLine.throughEnd lines = SourceLine.throughEnd others) :
    state.runPasses lines = state.runPasses others := by
  have first : state.firstPass lines = state.firstPass others := by
    rw [firstPass_eq, firstPass_eq, Layout.ofLines, Layout.ofLines, same]
  have second (next : Assembler) : next.secondPass lines = next.secondPass others := by
    simp only [secondPass, generate, ObjectLine.generateAll, same]
  simp only [runPasses, first, second]

def unlisted (state : Assembler) : Assembler := { state with listing := [] }

private theorem secondPass_append_of_isEnd (state : Assembler) (below : state.start < Address.limit)
    {lines : List SourceLine} {last : SourceLine} (unclosed : ∀ line ∈ lines, line.isEnd = false)
    (isEnd : last.isEnd = true) :
    (state.secondPass (lines ++ [last])).1 = (state.secondPass lines).1 ∧
      (state.secondPass (lines ++ [last])).2.unlisted = (state.secondPass lines).2.unlisted := by
  have closed : SourceLine.throughEnd [last] = [last] := by simp [SourceLine.throughEnd, isEnd]
  simp only [secondPass, generate, ObjectLine.generateAll,
    SourceLine.throughEnd_append_of_forall unclosed, closed,
    SourceLine.throughEnd_of_forall unclosed]
  rcases ObjectLine.generateFrom_append_of_isEnd isEnd ⟨state.start, 0⟩ below lines with
    ⟨diagnostic, failed, failedToo⟩ | ⟨objectLines, address, done, doneToo⟩
  · rw [failed, failedToo]
    exact ⟨rfl, rfl⟩
  · rw [done, doneToo]
    simp only [bind, Except.bind, ObjectProgram.ofLines_append_of_empty]
    cases ObjectProgram.ofLines state.header objectLines with
    | error diagnostic => exact ⟨rfl, rfl⟩
    | ok program => exact ⟨rfl, rfl⟩

/-- An `END` that has no label can be left out at the end of a program. -/
theorem runPasses_append_of_isEnd (state : Assembler) {lines : List SourceLine} {last : SourceLine}
    (unclosed : ∀ line ∈ lines, line.isEnd = false) (isEnd : last.isEnd = true)
    (unlabelled : last.statement.label = none) :
    (state.runPasses (lines ++ [last])).1 = (state.runPasses lines).1 ∧
      (state.runPasses (lines ++ [last])).2.unlisted = (state.runPasses lines).2.unlisted := by
  have first : state.firstPass (lines ++ [last]) = state.firstPass lines := by
    rw [firstPass_eq, firstPass_eq, Layout.ofLines_append_of_isEnd unclosed isEnd unlabelled]
  rw [runPasses, runPasses, first, firstPass_eq]
  cases placed : Layout.ofLines lines with
  | error failure => exact ⟨rfl, rfl⟩
  | ok layout =>
    obtain ⟨_, _, total, below, _⟩ := Layout.sizes_of_ofLines placed
    apply secondPass_append_of_isEnd _ _ unclosed isEnd
    change layout.start < Address.limit
    omega

end Assembler

/-- The line `END` is a statement of either machine. -/
theorem Statement.parse_end (machine : Machine) :
    parse machine "END" = .ok (some ⟨none, .directive .finish, none, false⟩) := by
  cases machine <;> decide +kernel

/-- `END` cuts a program cleanly, and may be left out. Whatever can be read behind an `END` changes
neither the result nor the state. A program closed with the line `END` has the result that it has
without the line, and leaves the same state but for its listing. -/
theorem end_closes_program (state : Assembler) :
    (∀ (front back : List String) (source : List SourceLine) (text : String) (last : Statement),
      SourceLine.parseAll state.machine (front ++ back) = .ok source →
      text ∈ front → Statement.parse state.machine text = .ok (some last) →
      last.operation = .directive .finish →
      state.assemble (front ++ back) = state.assemble front) ∧
    ∀ lines : List String,
      (state.assemble (lines ++ ["END"])).1 = (state.assemble lines).1 ∧
      (state.assemble (lines ++ ["END"])).2.unlisted = (state.assemble lines).2.unlisted := by
  constructor
  · intro front back source text last accepted member read isEnd
    obtain ⟨first, second, parsed, rfl⟩ := SourceLine.exists_of_parseAll_append accepted
    obtain ⟨line, present, rfl⟩ := SourceLine.exists_mem_of_parseFrom parsed member read
    have ends : ∃ line ∈ first, line.isEnd = true :=
      ⟨line, present, by simp [SourceLine.isEnd, isEnd]⟩
    rw [Assembler.assemble, Assembler.assemble, accepted, parsed]
    apply Assembler.runPasses_eq_of_throughEnd
    exact SourceLine.throughEnd_append_of_isEnd first second ends
  · intro lines
    rw [Assembler.assemble, Assembler.assemble, SourceLine.parseAll, SourceLine.parseFrom_append,
      SourceLine.parseAll]
    cases SourceLine.parseFrom state.machine 1 lines with
    | error diagnostic => exact ⟨rfl, rfl⟩
    | ok source =>
      simp only [SourceLine.parseFrom, Statement.parse_end, bind, Except.bind, pure, Except.pure]
      by_cases closed : ∃ line ∈ source, line.isEnd = true
      · rw [Assembler.runPasses_eq_of_throughEnd _
          (SourceLine.throughEnd_append_of_isEnd source _ closed)]
        exact ⟨rfl, rfl⟩
      · apply Assembler.runPasses_append_of_isEnd _ _ rfl rfl
        intro line member
        exact Bool.eq_false_iff.mpr fun isEnd => closed ⟨line, member, isEnd⟩

/-- Behind `END` there may be a second `START`, a second definition of a label, a reservation beyond
all memory, a label that does not exist and a literal that is none. -/
theorem end_closes_program_before_faults :
    ∃ (program : ObjectProgram) (after : Assembler),
      Assembler.assemble { machine := .sic } ["P START 10", "A LDA A", "END"] =
        (.ok program, after) ∧
      Assembler.assemble { machine := .sic }
        (["P START 10", "A LDA A", "END"] ++
          ["Q START 20", "A RESB 4294967295", "LDA NOWHERE", "BYTE Q"]) = (.ok program, after) ∧
      program.texts = [⟨16, [0x00, 0x00, 0x10]⟩] ∧ after.listing.length = 3 := by
  have assembled : Assembler.assemble { machine := .sic } ["P START 10", "A LDA A", "END"] =
      (.ok ⟨⟨"P", 16, 3⟩, [⟨16, [0x00, 0x00, 0x10]⟩], [], 16⟩,
        { machine := .sic, name := "P", start := 16, length := 3
          symbols := ⟨[("A", 16), ("P", 16)], by decide⟩
          listing := [⟨1, 16, "P START 10", ""⟩, ⟨2, 16, "A LDA A", "000010"⟩,
            ⟨3, 19, "END", ""⟩] }) := by
    decide +kernel
  cases accepted : SourceLine.parseAll .sic
      (["P START 10", "A LDA A", "END"] ++
        ["Q START 20", "A RESB 4294967295", "LDA NOWHERE", "BYTE Q"]) with
  | error diagnostic =>
    have readable : (SourceLine.parseAll .sic (["P START 10", "A LDA A", "END"] ++
        ["Q START 20", "A RESB 4294967295", "LDA NOWHERE", "BYTE Q"])).toBool = true := by
      decide +kernel
    rw [accepted] at readable
    contradiction
  | ok source =>
    have same := (end_closes_program { machine := .sic }).1 _ _ source "END" _ accepted
      (by decide) (Statement.parse_end .sic) rfl
    exact ⟨_, _, assembled, same.trans assembled, rfl, rfl⟩

end SicAssembler
