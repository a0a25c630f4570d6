import SicAssembler.Assembler
import SicAssembler.Proofs.Ranges
import SicAssembler.Proofs.TextRecords

/-! # A run that checks every step

The checked run takes the steps of an assembly one by one: it finds words and digits by their
positions, and it places the code of each line before it goes on to the next one. A position outside
its list and a sum that leaves 32 bits stop it in a way of their own. It never stops so: on lines of
fewer than `2 ^ 32` bytes it does what the assembler does, whether that succeeds or fails.
-/

namespace SicAssembler

inductive Stop where
  /-- The program is at fault. -/
  | fault (diagnostic : Diagnostic)
  /-- A result is no unsigned number of 32 bits. -/
  | arithmetic
  /-- A position lies outside its list. -/
  | position
deriving DecidableEq, Repr

namespace Checked

def item {α : Type} (items : List α) (position : Nat) : Except Stop α :=
  match items[position]? with
  | some found => .ok found
  | none => .error .position

/-- Attach a line to a fault of the program, and tell arithmetic apart from it. -/
def atLine {α : Type} (line : Nat) : Except Fault α → Except Stop α
  | .ok value => .ok value
  | .error .addressRange => .error .arithmetic
  | .error fault => .error (.fault (.source line fault))

/-- Positions of label, operation and operand among the words of a line. -/
structure Roles where
  label : Option Nat
  operator : Nat
  operand : Option Nat

def isOperator (machine : Machine) (words : List String) (position : Nat) : Except Stop Bool := do
  return (machine.operator? (← item words position)).isSome

/-- The roles of the words of a line, by their number. -/
def roles? (machine : Machine) (words : List String) : Except Stop (Option Roles) := do
  match words.length with
  | 1 => return if ← isOperator machine words 0 then some ⟨none, 0, none⟩ else none
  | 2 =>
    if ← isOperator machine words 0 then return some ⟨none, 0, some 1⟩
    else return if ← isOperator machine words 1 then some ⟨some 0, 1, none⟩ else none
  | 3 => return if ← isOperator machine words 1 then some ⟨some 0, 1, some 2⟩ else none
  | _ => return none

/-- The word of a role that need not be filled. -/
def optionalItem (words : List String) : Option Nat → Except Stop (Option String)
  | none => .ok none
  | some position => do return some (← item words position)

def statement? (machine : Machine) (words : List String) : Except Stop (Option Statement) := do
  match ← roles? machine words with
  | none => return none
  | some roles =>
    let label ← optionalItem words roles.label
    let word ← item words roles.operator
    let operand ← optionalItem words roles.operand
    return (machine.operator? word).map fun (operation, extended) =>
      ⟨label, operation, operand.map Operand.mk, extended⟩

def parse (machine : Machine) (line : Nat) (text : String) : Except Stop (Option Statement) :=
  let trimmed := Text.trim text.toList
  if Statement.isInert trimmed then .ok none
  else
    let shown := String.ofList trimmed
    let words := (Words.split trimmed).map String.ofList
    if words.length > 3 then atLine line (.error (.malformed shown))
    else do
      match ← statement? machine words with
      | none => atLine line (.error (Statement.wordsFault shown words))
      | some statement => atLine line ((Statement.checkPlus machine statement).map some)

/-- Read lines, the first of which has the given number. -/
def parseFrom (machine : Machine) : Nat → List String → Except Stop (List SourceLine)
  | _, [] => .ok []
  | line, text :: rest => do
    match ← parse machine line text with
    | none => parseFrom machine (line + 1) rest
    | some statement =>
      let others ← parseFrom machine (line + 1) rest
      return ⟨line, String.ofList (Text.trimEnd text.toList), statement⟩ :: others

def pairByte (pair : List Char) : Except Stop UInt8 := do
  let high ← item pair 0
  let low ← item pair 1
  let value := 16 * Numeral.hexDigitValue high + Numeral.hexDigitValue low
  if value < Address.limit then return UInt8.ofNat value else .error .arithmetic

/-- The bytes of a literal, whose digits are taken two by two. -/
def literalBytes : ByteLiteral → Except Stop (List UInt8)
  | .characters body => .ok (ByteLiteral.characters body).bytes
  | .hex body => (Piece.chunks 2 body.toList).mapM pairByte

def generate (machine : Machine) (symbols : SymbolTable) (site : Site) (source : SourceLine) :
    Except Stop Generated :=
  if source.statement.operation = .directive .byte then do
    let literal ← atLine source.line source.statement.byteLiteral
    return { bytes := ← literalBytes literal, base := site.base }
  else atLine source.line (source.statement.generate machine symbols site)

/-- One line of the second pass: its object line, its pieces, and the site behind it. -/
def step (machine : Machine) (symbols : SymbolTable) (site : Site) (gap : Bool)
    (source : SourceLine) : Except Stop (ObjectLine × List Piece × Site) := do
  let size ← atLine source.line source.statement.size
  let generated ← generate machine symbols site source
  let pieces ← atLine source.line
    (Piece.place gap site.address (Piece.chunks maxTextBytes generated.bytes))
  let next ← atLine source.line (Address.add site.address size)
  return (⟨source, site.address, generated.bytes, generated.modification⟩, pieces,
    ⟨next, generated.base⟩)

/-- The lines of the second pass, one after another. -/
def run (machine : Machine) (symbols : SymbolTable) :
    Site → Bool → List SourceLine → Except Stop (List ObjectLine × List Piece)
  | _, _, [] => .ok ([], [])
  | site, gap, source :: rest => do
    let (line, front, next) ← step machine symbols site gap source
    let (lines, back) ← run machine symbols next
      ((gap && front.isEmpty) || source.statement.reserves) rest
    return (line :: lines, front ++ back)

def assemble (machine : Machine) (texts : List String) : Except Stop ObjectProgram := do
  let source ← parseFrom machine 1 texts
  let layout ← (Layout.ofLines source).mapError fun halt => Stop.fault halt.diagnostic
  let length ← atLine (Assembler.lastLine source) layout.length
  let (lines, pieces) ← run machine layout.symbols ⟨layout.start, 0⟩ false
    (SourceLine.throughEnd source)
  return {
    header := ⟨layout.name, layout.start, length⟩
    texts := Piece.pack { start := layout.start } pieces
    modifications := lines.filterMap ObjectLine.modification
    entry := layout.start }

/-- A step in range is stopped by faults of the program only. -/
theorem atLine_of_inRange {α : Type} {result : Except Fault α} (inRange : InRange result)
    (line : Nat) : atLine line result = (SicAssembler.atLine line result).mapError Stop.fault := by
  cases result with
  | ok value => rfl
  | error fault =>
    have other := inRange fault rfl
    cases fault
    case addressRange => exact absurd rfl other
    all_goals rfl

/-- The positions of label, operation and operand are those of words. -/
theorem statement?_eq (machine : Machine) (words : List String) :
    statement? machine words = .ok (Statement.ofWords? machine words) := by
  match words with
  | [] => rfl
  | [word] =>
    cases read : machine.operator? word <;>
      simp [statement?, roles?, isOperator, item, optionalItem, Statement.ofWords?, read, bind,
        Except.bind, pure, Except.pure]
  | [first, second] =>
    cases readFirst : machine.operator? first <;> cases readSecond : machine.operator? second <;>
      simp [statement?, roles?, isOperator, item, optionalItem, Statement.ofWords?, readFirst,
        readSecond, bind, Except.bind, pure, Except.pure]
  | [label, word, operand] =>
    cases read : machine.operator? word <;>
      simp [statement?, roles?, isOperator, item, optionalItem, Statement.ofWords?, read, bind,
        Except.bind, pure, Except.pure]
  | _ :: _ :: _ :: _ :: _ => rfl

private theorem parse_eq (machine : Machine) (line : Nat) (text : String) :
    parse machine line text =
      (SicAssembler.atLine line (Statement.parse machine text)).mapError Stop.fault := by
  rw [← atLine_of_inRange (Statement.inRange_parse machine text)]
  simp only [parse, Statement.parse, statement?_eq, bind, Except.bind]
  split
  · rfl
  · split
    · rfl
    · cases Statement.ofWords? machine
        ((Words.split (Text.trim text.toList)).map String.ofList) <;> rfl

theorem parseFrom_eq (machine : Machine) (line : Nat) (texts : List String) :
    parseFrom machine line texts =
      (SourceLine.parseFrom machine line texts).mapError Stop.fault := by
  induction texts generalizing line with
  | nil => rfl
  | cons text rest ih =>
    rw [parseFrom, parse_eq, SourceLine.parseFrom, ih]
    cases Statement.parse machine text with
    | error fault => rfl
    | ok found =>
      cases found with
      | none => rfl
      | some statement => cases SourceLine.parseFrom machine (line + 1) rest <;> rfl

end Checked

namespace Piece

/-- More fuel than there are items changes nothing. -/
theorem chunksWith_succ {α : Type} {length : Nat} (positive : 0 < length) (fuel : Nat)
    (items : List α) (enough : items.length ≤ fuel) :
    chunksWith length (fuel + 1) items = chunksWith length fuel items := by
  induction fuel generalizing items with
  | zero => simp [chunksWith, List.length_eq_zero_iff.mp (Nat.le_zero.mp enough)]
  | succ fuel ih =>
    cases items with
    | nil => rfl
    | cons first rest =>
      have shorter : ((first :: rest).drop length).length ≤ fuel := by
        simp only [List.length_drop, List.length_cons] at enough ⊢
        omega
      rw [chunksWith, ih _ shorter, chunksWith]

private theorem chunks_two_cons {α : Type} (first second : α) (rest : List α) :
    chunks 2 (first :: second :: rest) = [first, second] :: chunks 2 rest := by
  rw [chunks, List.length_cons, List.length_cons, chunksWith, chunks]
  exact congrArg _ (chunksWith_succ (by decide) rest.length rest (Nat.le_refl _))

end Piece

namespace Checked

private theorem pairByte_eq {high low : Char} (highDigit : Numeral.isHexDigit high = true)
    (lowDigit : Numeral.isHexDigit low = true) :
    pairByte [high, low] =
      .ok (UInt8.ofNat (16 * Numeral.hexDigitValue high + Numeral.hexDigitValue low)) := by
  have bound : 16 * Numeral.hexDigitValue high + Numeral.hexDigitValue low < Address.limit := by
    have := Numeral.hexDigitValue_lt highDigit
    have := Numeral.hexDigitValue_lt lowDigit
    simp only [Address.limit]
    omega
  exact if_pos bound

/-- Digits in pairs are found at their positions. -/
theorem mapM_pairByte {digits : List Char} (paired : digits.length % 2 = 0)
    (allDigits : ∀ c ∈ digits, Numeral.isHexDigit c = true) :
    (Piece.chunks 2 digits).mapM pairByte = .ok (ByteLiteral.pairBytes digits) := by
  fun_induction ByteLiteral.pairBytes digits with
  | case1 high low rest ih =>
    obtain ⟨highDigit, others⟩ := List.forall_mem_cons.mp allDigits
    obtain ⟨lowDigit, restDigits⟩ := List.forall_mem_cons.mp others
    have pairedRest : rest.length % 2 = 0 := by
      simp only [List.length_cons] at paired
      omega
    rw [Piece.chunks_two_cons, List.mapM_cons, pairByte_eq highDigit lowDigit,
      ih pairedRest restDigits]
    rfl
  | case2 digits short =>
    cases digits with
    | nil => rfl
    | cons high others =>
      cases others with
      | nil => simp at paired
      | cons low rest => exact absurd rfl (short high low rest)

/-- The digits of a literal that was read form pairs. -/
theorem literalBytes_of_read {text : String} {literal : ByteLiteral}
    (found : ByteLiteral.read text = .ok literal) : literalBytes literal = .ok literal.bytes := by
  obtain ⟨body, _, _, ⟨rfl, _⟩ | ⟨rfl, paired, digits⟩⟩ := ByteLiteral.body_of_read found
  · rfl
  · rw [literalBytes, ByteLiteral.bytes, String.toList_ofList]
    apply mapM_pairByte
    · rw [List.length_map, paired]
    · exact Numeral.isHexDigit_map_toUpper digits

section SecondPass

variable {machine : Machine} {symbols : SymbolTable} {site : Site} {source : SourceLine}
  {size : Nat}

/-- A statement that ends below the limit is generated without leaving the range. -/
theorem generate_eq (sized : source.statement.size = .ok size)
    (room : site.address + size < Address.limit) :
    generate machine symbols site source =
      (SicAssembler.atLine source.line
        (source.statement.generate machine symbols site)).mapError Stop.fault := by
  rw [← atLine_of_inRange (Statement.inRange_generate sized room), generate]
  split
  · next isByte =>
    rw [Statement.generate, isByte]
    cases read : source.statement.byteLiteral with
    | error fault =>
      cases fault <;> rfl
    | ok literal =>
      obtain ⟨operand, _, found⟩ := Statement.read_of_byteLiteral read
      simp only [atLine, bind, Except.bind, literalBytes_of_read found]
      rfl
  · rfl

/-- A line that ends below the limit is at fault, or it is generated and placed in range. -/
theorem step_cases (admissible : source.statement.Admissible machine)
    (short : source.statement.Short) (sized : source.statement.size = .ok size)
    (room : site.address + size < Address.limit) (gap : Bool) :
    (∃ fault, ObjectLine.generate machine symbols site source = .error fault ∧
      fault ≠ .addressRange ∧
      step machine symbols site gap source = .error (.fault (.source source.line fault))) ∨
    ∃ line next pieces, ObjectLine.generate machine symbols site source = .ok (line, next) ∧
      next.address = site.address + size ∧
      Piece.place gap line.address (Piece.chunks maxTextBytes line.bytes) = .ok pieces ∧
      step machine symbols site gap source = .ok (line, pieces, next) := by
  have added : Address.add site.address size = .ok (site.address + size) :=
    Address.add_eq_ok_iff.mpr ⟨rfl, room⟩
  simp only [step, ObjectLine.generate, sized, generate_eq sized room, added, atLine, bind,
    Except.bind]
  cases generated : source.statement.generate machine symbols site with
  | error fault =>
    exact .inl ⟨fault, rfl, Statement.inRange_generate sized room fault generated, rfl⟩
  | ok made =>
    -- The last piece ends where the code ends, which is no later than the end of the line.
    have inside := Statement.length_le_of_generate admissible short sized generated
    have placed : Piece.place gap site.address (Piece.chunks maxTextBytes made.bytes) =
        .ok (Piece.placed gap site.address (Piece.chunks maxTextBytes made.bytes)) := by
      refine Piece.place_eq_ok_iff.mpr ⟨rfl, fun _ => ?_⟩
      rw [Piece.flatten_chunks (by decide)]
      omega
    refine .inr ⟨_, _, _, rfl, rfl, placed, ?_⟩
    simp only [SicAssembler.atLine, Except.mapError, placed]
    rfl

/-- Lines that end below the limit are generated and placed in range up to the first one at fault,
and to the end if there is none. -/
theorem run_cases (symbols : SymbolTable) {sources : List SourceLine} {sizes : List Nat}
    (admissible : ∀ source ∈ sources, source.statement.Admissible machine)
    (short : ∀ source ∈ sources, source.statement.Short)
    (sized : SourceLine.HaveSizes sources sizes)
    (room : site.address + sizes.sum < Address.limit) (gap : Bool) :
    (∃ diagnostic, ObjectLine.generateFrom machine symbols site sources = .error diagnostic ∧
      ¬ diagnostic.IsRange ∧ run machine symbols site gap sources = .error (.fault diagnostic)) ∨
    ∃ lines pieces, ObjectLine.generateFrom machine symbols site sources = .ok lines ∧
      Piece.ofLines gap lines = .ok pieces ∧
      run machine symbols site gap sources = .ok (lines, pieces) := by
  -- The sum of the sizes is the room that is left, so it shrinks by the size of each line.
  induction sources generalizing site sizes gap with
  | nil => exact .inr ⟨[], [], rfl, rfl, rfl⟩
  | cons source rest ih =>
    obtain ⟨admissibleHere, admissibleRest⟩ := List.forall_mem_cons.mp admissible
    obtain ⟨shortHere, shortRest⟩ := List.forall_mem_cons.mp short
    obtain ⟨size, others, rfl, sizedHere, sizedRest⟩ := SourceLine.haveSizes_cons_iff.mp sized
    rw [List.sum_cons] at room
    have roomHere : site.address + size < Address.limit := by omega
    simp only [ObjectLine.generateFrom, run]
    rcases step_cases admissibleHere shortHere sizedHere roomHere gap with
      ⟨fault, failed, other, stopped⟩ | ⟨line, next, front, made, behind, placed, stepped⟩
    · rw [failed, stopped]
      exact .inl ⟨_, rfl, Diagnostic.not_isRange other source.line, rfl⟩
    · have roomRest : next.address + others.sum < Address.limit := by omega
      have source_eq := ObjectLine.source_of_generate made
      rw [made, stepped]
      rcases ih admissibleRest shortRest sizedRest roomRest
          ((gap && front.isEmpty) || source.statement.reserves) with
        ⟨diagnostic, failed, other, stopped⟩ | ⟨lines, back, generated, cut, ran⟩
      · refine .inl ⟨diagnostic, ?_, other, ?_⟩
        · simp only [failed]
        · simp only [bind, Except.bind, stopped]
      · refine .inr ⟨line :: lines, front ++ back, ?_, ?_, ?_⟩
        · simp only [generated]
        · rw [Piece.ofLines, placed, source_eq]
          simp only [SicAssembler.atLine, bind, Except.bind, cut]
          rfl
        · simp only [bind, Except.bind, ran]
          rfl

end SecondPass

end Checked

private theorem ObjectProgram.ofLines_of_pieces (header : Header) {lines : List ObjectLine}
    {pieces : List Piece} (cut : Piece.ofLines false lines = .ok pieces) :
    ofLines header lines = .ok
      { header := header
        texts := Piece.pack { start := header.start } pieces
        modifications := lines.filterMap ObjectLine.modification
        entry := header.start } := by
  simp only [ofLines, cut, bind, Except.bind]
  rfl

/-- Behind its first pass, an assembly generates the program of its layout. -/
theorem Assembler.assemble_of_layout {state : Assembler} {texts : List String}
    {source : List SourceLine} {layout : Layout} {length : Nat}
    (parsed : SourceLine.parseFrom state.machine 1 texts = .ok source)
    (placed : Layout.ofLines source = .ok layout) (measured : layout.length = .ok length) :
    (state.assemble texts).1 =
      ObjectLine.generateFrom state.machine layout.symbols ⟨layout.start, 0⟩
        (SourceLine.throughEnd source) >>=
      ObjectProgram.ofLines ⟨layout.name, layout.start, length⟩ := by
  simp only [assemble, SourceLine.parseAll, parsed, runPasses, firstPass, placed, measured, atLine,
    secondPass, generate, ObjectLine.generateAll, bind, Except.bind]
  simp only [adopt, reset, header]
  cases ObjectLine.generateFrom state.machine layout.symbols ⟨layout.start, 0⟩
      (SourceLine.throughEnd source) with
  | error diagnostic => rfl
  | ok lines =>
    dsimp only
    cases ObjectProgram.ofLines ⟨layout.name, layout.start, length⟩ lines <;> rfl

/-- The checked run and the assembler stop at the same fault of the program, or give the same
program. -/
theorem Checked.assemble_cases (state : Assembler) {texts : List String}
    (short : ∀ text ∈ texts, text.utf8ByteSize < Address.limit) :
    (∃ diagnostic, (state.assemble texts).1 = .error diagnostic ∧ ¬ diagnostic.IsRange ∧
      Checked.assemble state.machine texts = .error (.fault diagnostic)) ∨
    ∃ program, (state.assemble texts).1 = .ok program ∧
      Checked.assemble state.machine texts = .ok program := by
  rw [Checked.assemble, parseFrom_eq]
  cases parsed : SourceLine.parseFrom state.machine 1 texts with
  | error diagnostic =>
    refine .inl ⟨diagnostic, ?_, SourceLine.avoids_parseFrom _ _ _ diagnostic parsed, rfl⟩
    simp only [Assembler.assemble, SourceLine.parseAll, parsed]
  | ok source =>
    cases placed : Layout.ofLines source with
    | error halt =>
      refine .inl ⟨halt.diagnostic, ?_, Layout.avoids_ofLines source halt placed, ?_⟩
      · simp only [Assembler.assemble, SourceLine.parseAll, parsed, Assembler.runPasses,
          Assembler.firstPass, placed]
      · simp only [Except.mapError, bind, Except.bind, placed]
    | ok layout =>
      obtain ⟨sizes, sized, counter, bounded, _⟩ := Layout.sizes_of_ofLines placed
      have measured : layout.length = .ok sizes.sum := Address.sub_eq_ok_iff.mpr counter.symm
      have shortLines : ∀ line ∈ SourceLine.throughEnd source, line.statement.Short :=
        fun line member => SourceLine.short_of_parseFrom short parsed line
          ((SourceLine.isPrefix_throughEnd source).subset member)
      have room : (⟨layout.start, 0⟩ : Site).address + sizes.sum < Address.limit := by
        rw [← counter]
        exact bounded
      rw [Assembler.assemble_of_layout parsed placed measured]
      simp only [Except.mapError, bind, Except.bind, placed, measured, Checked.atLine]
      have admissible := SourceLine.admissible_throughEnd parsed
      rcases run_cases layout.symbols admissible shortLines sized room false with
        ⟨diagnostic, failed, other, stopped⟩ | ⟨lines, pieces, generated, cut, ran⟩
      · simp only [failed, stopped]
        exact .inl ⟨diagnostic, rfl, other, rfl⟩
      · simp only [generated, ran]
        exact .inr ⟨_, ObjectProgram.ofLines_of_pieces _ cut, rfl⟩

/-- No step of an assembly leaves its range. On lines of fewer than `2 ^ 32` bytes, the run that
checks each sum, difference and position gives the program of the assembler or stops at the same
fault; and the fault is never one of address arithmetic. -/
theorem assembly_stays_in_range (state : Assembler) {texts : List String}
    (short : ∀ text ∈ texts, text.utf8ByteSize < Address.limit) :
    Checked.assemble state.machine texts = (state.assemble texts).1.mapError Stop.fault ∧
      ∀ line, (state.assemble texts).1 ≠ .error (.source line .addressRange) := by
  rcases Checked.assemble_cases state short with
    ⟨diagnostic, failed, other, stopped⟩ | ⟨program, assembled, ran⟩
  · rw [failed, stopped]
    refine ⟨rfl, fun line same => ?_⟩
    exact other ⟨line, Except.error.inj same⟩
  · rw [assembled, ran]
    exact ⟨rfl, nofun⟩

theorem assembly_stays_in_range_at_limit :
    ∃ program : ObjectProgram,
      program.header = ⟨"P", 0xFFFFFFF6, 9⟩ ∧ program.modifications = [] ∧
      (Assembler.assemble { machine := .xe }
        ["P START FFFFFFF6", "A LDA A", " SHIFTL A,1", " BYTE X'F10A'", " RESB 2"]).1 =
        .ok program ∧
      Checked.assemble .xe
        ["P START FFFFFFF6", "A LDA A", " SHIFTL A,1", " BYTE X'F10A'", " RESB 2"] =
        .ok program := by
  have assembled : (Assembler.assemble { machine := .xe }
      ["P START FFFFFFF6", "A LDA A", " SHIFTL A,1", " BYTE X'F10A'", " RESB 2"]).1 =
      .ok ⟨⟨"P", 0xFFFFFFF6, 9⟩, [⟨0xFFFFFFF6, [0x03, 0x2F, 0xFD, 0xA4, 0x00, 0xF1, 0x0A]⟩], [],
        0xFFFFFFF6⟩ := by
    decide +kernel
  have inRange := (assembly_stays_in_range { machine := .xe } (by decide +kernel :
    ∀ text ∈ ["P START FFFFFFF6", "A LDA A", " SHIFTL A,1", " BYTE X'F10A'", " RESB 2"],
      text.utf8ByteSize < Address.limit)).1
  rw [assembled] at inRange
  exact ⟨_, rfl, rfl, assembled, inRange⟩

end SicAssembler
