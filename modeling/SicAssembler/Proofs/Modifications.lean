import Mathlib.Data.List.Forall2
import SicAssembler.Proofs.Relocation

/-! # Modifications name exactly the fields that move

The statements whose address field moves with the program can be told from the source: they are
extended and their operand is not immediate. Each of them has one modification, no other statement
has one, and the field that a modification names lies in a single text record, where it holds the
address of the label that the statement refers to. Code is cut into pieces before it is packed, and
an instruction of four bytes is always one piece, so no record boundary falls into a field.
-/

namespace SicAssembler

namespace Statement

/-- Whether a statement has an address field that moves with the program: it is extended, and its
operand does not start with `#`. -/
def hasMovingField (statement : Statement) : Bool :=
  statement.extended && statement.operand.any fun operand => operand.text.toList.head? != some '#'

end Statement

namespace Encode

variable {machine : Machine} {symbols : SymbolTable} {site : Site} {found : Instruction}
  {statement : Statement} {encoded : Encoded}

/-- Without the extended format there is no field of twenty bits, and none moves. -/
theorem modification_of_plain (admissible : statement.Admissible machine)
    (isMachine : statement.operation = .machine found) (plain : statement.extended = false)
    (made : instruction machine symbols site found statement = .ok encoded) :
    encoded.modification = none := by
  cases named : encoded.modification with
  | none => rfl
  | some modification =>
    have four := (modification_of_instruction made named).2.1
    have size := size_of_instruction admissible isMachine made
    rw [plain, four] at size
    cases format : found.format <;> simp [format, Format.size] at size

/-- An extended statement is encoded in format 4. Its field moves unless the operand is immediate,
and a field that moves holds the address of a label. -/
theorem modification_of_extended (admissible : statement.Admissible machine)
    (isMachine : statement.operation = .machine found) (extended : statement.extended = true)
    (made : instruction machine symbols site found statement = .ok encoded) :
    (statement.hasMovingField = false ∧ encoded.modification = none) ∨
    (statement.hasMovingField = true ∧ encoded.modification = some ⟨site.address + 1, 5⟩ ∧
      ∃ operand flags address, statement.operand = some operand ∧
        symbols.get? operand.key = some address ∧ address < 0x100000 ∧
        encoded.code = .format4 found.code flags address) := by
  obtain ⟨rfl, instruction, same, format⟩ := admissible.extended_cases extended
  obtain rfl : found = instruction := Operation.machine.inj (isMachine.symm.trans same)
  rw [instruction_of_extended format extended] at made
  rcases format4_eq_ok_cases made with
    ⟨absent, rfl⟩ | ⟨operand, reached, present, resolved, small, rfl⟩
  · exact .inl ⟨by simp [Statement.hasMovingField, absent], rfl⟩
  · have moves : statement.hasMovingField = !operand.isImmediate := by
      simp [Statement.hasMovingField, extended, present, Operand.isImmediate, bne]
    rw [moves, relocation]
    cases immediate : operand.isImmediate with
    | true => exact .inl ⟨rfl, rfl⟩
    | false =>
      rcases target_eq_ok_cases resolved with ⟨address, rfl, known⟩ | ⟨_, _, _, _, marked, _⟩
      · exact .inr ⟨rfl, rfl, operand, _, address, present, known, small, rfl⟩
      · exact absurd marked (by simp [immediate])

end Encode

namespace Statement

variable {machine : Machine} {symbols : SymbolTable} {site : Site} {statement : Statement}
  {made : Generated}

theorem modification_of_plain (admissible : statement.Admissible machine)
    (plain : statement.extended = false)
    (generated : statement.generate machine symbols site = .ok made) :
    made.modification = none := by
  unfold generate at generated
  split at generated
  · next found isMachine =>
    obtain ⟨encoded, coded, rfl⟩ := exists_of_bind_pure_eq_ok generated
    exact Encode.modification_of_plain admissible isMachine plain coded
  · obtain ⟨bytes, _, rfl⟩ := exists_of_bind_pure_eq_ok generated
    rfl
  · obtain ⟨literal, _, rfl⟩ := exists_of_bind_pure_eq_ok generated
    rfl
  · obtain ⟨base, _, rfl⟩ := exists_of_bind_pure_eq_ok generated
    rfl
  all_goals
    cases generated
    rfl

/-- Either the code of a statement has a moving field, which holds the address of the label that the
operand names, or there is nothing to modify. -/
theorem modification_cases (admissible : statement.Admissible machine)
    (generated : statement.generate machine symbols site = .ok made) :
    (statement.hasMovingField = false ∧ made.modification = none) ∨
    (statement.hasMovingField = true ∧ made.modification = some ⟨site.address + 1, 5⟩ ∧
      ∃ operand code flags address, statement.operand = some operand ∧
        symbols.get? operand.key = some address ∧ address < 0x100000 ∧
        made.bytes = (MachineCode.format4 code flags address).bytes) := by
  cases extended : statement.extended with
  | false =>
    have still : statement.hasMovingField = false := by simp [hasMovingField, extended]
    exact .inl ⟨still, modification_of_plain admissible extended generated⟩
  | true =>
    obtain ⟨_, found, isMachine, _⟩ := admissible.extended_cases extended
    simp only [generate, isMachine] at generated
    obtain ⟨encoded, coded, rfl⟩ := exists_of_bind_pure_eq_ok generated
    rcases Encode.modification_of_extended admissible isMachine extended coded with
      still | ⟨moves, named, operand, flags, address, present, known, small, code⟩
    · exact .inl still
    · exact .inr ⟨moves, named, operand, _, flags, address, present, known, small, by rw [code]⟩

end Statement

def TextRecord.Holds (record : TextRecord) (address : Nat) (bytes : List UInt8) : Prop :=
  ∃ front back, record.bytes = front ++ (bytes ++ back) ∧ record.start + front.length = address

namespace Piece

/-- The bytes that a buffer holds become the front of a record. -/
theorem exists_record_of_buffer {buffer : TextBuffer} {cursor finish : Nat} {pieces : List Piece}
    (ready : buffer.Ready cursor) (chain : Chain cursor pieces finish)
    (present : buffer.bytes ≠ []) :
    ∃ record ∈ pack buffer pieces, ∃ back,
      record.start = buffer.start ∧ record.bytes = buffer.bytes ++ back := by
  induction chain generalizing buffer with
  | nil =>
    refine ⟨⟨buffer.start, buffer.bytes⟩, ?_, [], rfl, by simp⟩
    simp [pack, TextBuffer.record?, present]
  | @cons cursor finish piece rest _ adjacent _ _ _ ih =>
    rcases pack_cons_cases ready adjacent rest with
      ⟨_, _, packed⟩ | ⟨empty, _⟩ | ⟨_, _, here, total, packed⟩
    · exact ⟨_, by rw [packed]; exact List.mem_cons_self, [], rfl, by simp⟩
    · exact absurd empty present
    · obtain ⟨record, member, back, start, bytes⟩ :=
        ih (ready.join present here total) (by simp [present])
      exact ⟨record, packed ▸ member, piece.bytes ++ back, start, by rw [bytes, List.append_assoc]⟩

/-- A piece goes to the end of some buffer, and what is packed from there on is packed. -/
theorem exists_buffer_of_piece {buffer : TextBuffer} {cursor : Nat} (ready : buffer.Ready cursor)
    {piece : Piece} (adjacent : piece.afterGap = false → piece.address = cursor)
    (fits : piece.bytes.length ≤ maxTextBytes) (rest : List Piece) :
    ∃ (next : TextBuffer) (front : List UInt8),
      next.Ready (piece.address + piece.bytes.length) ∧ next.bytes = front ++ piece.bytes ∧
      next.start + front.length = piece.address ∧ pack next rest ⊆ pack buffer (piece :: rest) := by
  rcases pack_cons_cases ready adjacent rest with
    ⟨_, _, packed⟩ | ⟨_, packed⟩ | ⟨present, _, here, total, packed⟩
  · refine ⟨_, [], TextBuffer.ready_of_piece fits, rfl, rfl, ?_⟩
    rw [packed]
    exact List.subset_cons_self _ _
  · exact ⟨_, [], TextBuffer.ready_of_piece fits, rfl, rfl, packed ▸ List.Subset.refl _⟩
  · refine ⟨_, buffer.bytes, ready.join present here total, rfl, ?_, packed ▸ List.Subset.refl _⟩
    rw [here]
    exact (ready present).1

/-- No piece is divided: each one lies in a single record. -/
theorem exists_record_of_mem {buffer : TextBuffer} {cursor finish : Nat} {pieces : List Piece}
    (ready : buffer.Ready cursor) (chain : Chain cursor pieces finish) :
    ∀ piece ∈ pieces, ∃ record ∈ pack buffer pieces, record.Holds piece.address piece.bytes := by
  induction chain generalizing buffer with
  | nil => simp
  | @cons cursor finish piece rest _ adjacent positive fits others ih =>
    obtain ⟨next, front, nextReady, bytes, start, packed⟩ :=
      exists_buffer_of_piece ready adjacent fits rest
    refine List.forall_mem_cons.mpr ⟨?_, fun later member => ?_⟩
    · have present : next.bytes ≠ [] := by
        rw [bytes]
        exact List.append_ne_nil_of_right_ne_nil _ (List.length_pos_iff.mp positive)
      obtain ⟨record, inPacked, back, startEq, bytesEq⟩ :=
        exists_record_of_buffer nextReady others present
      refine ⟨record, packed inPacked, front, back, ?_, startEq ▸ start⟩
      rw [bytesEq, bytes, List.append_assoc]
    · obtain ⟨record, inPacked, holds⟩ := ih nextReady later member
      exact ⟨record, packed inPacked, holds⟩

private theorem chunks_of_short {bytes : List UInt8} (present : bytes ≠ [])
    (short : bytes.length ≤ maxTextBytes) : chunks maxTextBytes bytes = [bytes] := by
  cases bytes with
  | nil => contradiction
  | cons byte rest =>
    rw [chunks, List.length_cons, chunksWith, List.take_of_length_le short,
      List.drop_of_length_le short]
    cases rest <;> rfl

/-- Code that fits into a record is one piece. -/
theorem exists_mem_cut (gap : Bool) {lines : List ObjectLine} {line : ObjectLine}
    (member : line ∈ lines) (present : line.bytes ≠ [])
    (short : line.bytes.length ≤ maxTextBytes) :
    ∃ afterGap, ⟨line.address, line.bytes, afterGap⟩ ∈ cut gap lines := by
  induction lines generalizing gap with
  | nil => contradiction
  | cons first rest ih =>
    rcases List.mem_cons.mp member with rfl | later
    · exact ⟨gap, List.mem_append_left _ (by simp [chunks_of_short present short, placed])⟩
    · obtain ⟨afterGap, found⟩ := ih _ later
      exact ⟨afterGap, List.mem_append_right _ found⟩

end Piece

/-- No two records have bytes at a common address. -/
theorem TextRecord.Ordered.eq_of_common {low high : Nat} {records : List TextRecord}
    (ordered : Ordered low records high) {record other : TextRecord} (member : record ∈ records)
    (otherMember : other ∈ records) (before : record.start < other.start + other.bytes.length)
    (behind : other.start < record.start + record.bytes.length) : other = record := by
  induction ordered with
  | nil => contradiction
  | cons _ _ _ others ih =>
    rcases List.mem_cons.mp member with rfl | inRest
    · rcases List.mem_cons.mp otherMember with rfl | otherInRest
      · rfl
      · have := others.bounds other otherInRest
        omega
    · rcases List.mem_cons.mp otherMember with rfl | otherInRest
      · have := others.bounds record inRest
        omega
      · exact ih inRest otherInRest

/-- The field of a format 4 instruction can be read in the record that holds the instruction. -/
theorem TextRecord.Holds.field? {record : TextRecord} {place : Nat} {code : UInt8} {flags : Flags}
    {address : Nat} (holds : record.Holds place (MachineCode.format4 code flags address).bytes)
    (small : address < 0x100000) :
    (Memory.ofCells record.cells).field? (place + 1) = some address := by
  obtain ⟨front, back, bytes, start⟩ := holds
  rw [TextRecord.cells, bytes, cellsFrom_append, cellsFrom_append, start]
  apply Memory.field?_format4 _ code flags small
  intro cell member
  rw [← start]
  exact (bounds_of_mem_cellsFrom member).2

theorem ObjectLine.Laid.pairwise {address finish : Nat} {lines : List ObjectLine}
    (laid : Laid address lines finish) :
    lines.Pairwise fun left right => left.address + left.bytes.length ≤ right.address := by
  induction lines generalizing address with
  | nil => exact List.Pairwise.nil
  | cons line rest ih =>
    obtain ⟨_, next, behind, others⟩ := laid.uncons
    refine List.Pairwise.cons (fun later member => ?_) (ih others)
    have := others.bounds later member
    omega

/-- If exactly the lines with a moving field have a modification, then those lines and the
modifications correspond. -/
theorem ObjectLine.forall₂_modifications
    {Belongs : SourceLine × ListingLine → Modification → Prop} {lines : List ObjectLine}
    (cases : ∀ line ∈ lines,
      (line.source.statement.hasMovingField = false ∧ line.modification = none) ∨
      (line.source.statement.hasMovingField = true ∧ ∃ modification,
        line.modification = some modification ∧
        Belongs (line.source, ListingLine.ofObjectLine line) modification)) :
    List.Forall₂ Belongs
      ((lines.map fun line => (line.source, ListingLine.ofObjectLine line)).filter
        fun listed => listed.1.statement.hasMovingField)
      (lines.filterMap ObjectLine.modification) := by
  induction lines with
  | nil => exact .nil
  | cons line rest ih =>
    obtain ⟨here, later⟩ := List.forall_mem_cons.mp cases
    rw [List.map_cons]
    rcases here with ⟨still, none⟩ | ⟨moves, modification, named, belongs⟩
    · rw [List.filter_cons_of_neg (by simp [still]), List.filterMap_cons_none none]
      exact ih later
    · rw [List.filter_cons_of_pos (by simp [moves]), List.filterMap_cons_some named]
      exact .cons belongs (ih later)

/-- A modification belongs to a listed statement: it names the first byte and the five half bytes of
the statement's address field. All of the field lies in one text record, which no other record
overlaps, and it holds the address of the label that the operand refers to. -/
structure Modification.Locates (symbols : SymbolTable) (texts : List TextRecord)
    (listed : SourceLine × ListingLine) (modification : Modification) : Prop where
  address_eq : modification.address = listed.2.address + 1
  halfBytes_eq : modification.halfBytes = 5
  field : ∃ operand address text, listed.1.statement.operand = some operand ∧
    symbols.get? operand.key = some address ∧ address < 2 ^ 20 ∧ text ∈ texts ∧
    text.start ≤ modification.address ∧
    modification.address + 3 ≤ text.start + text.bytes.length ∧
    (Memory.ofCells text.cells).field? modification.address = some address ∧
    ∀ other ∈ texts, other.start < modification.address + 3 →
      modification.address < other.start + other.bytes.length → other = text

namespace Assembly

variable {machine : Machine} {texts : List String} {program : ObjectProgram} {after : Assembler}
  {source : List SourceLine} {lines : List ObjectLine} {sizes : List Nat} {final : Site}

/-- Code that fits into a record lies in a single text record of the program. -/
theorem exists_text_of_line
    (assembly : Assembly machine texts program after source lines sizes final) {line : ObjectLine}
    (member : line ∈ lines) (present : line.bytes ≠ [])
    (short : line.bytes.length ≤ maxTextBytes) :
    ∃ text ∈ program.texts, text.Holds line.address line.bytes := by
  obtain ⟨afterGap, inCut⟩ := Piece.exists_mem_cut false member present short
  rw [assembly.program_eq]
  exact Piece.exists_record_of_mem (TextBuffer.ready_empty _ _) assembly.chain _ inCut

/-- A line has a modification exactly if its statement has a moving field, which the modification
then locates. -/
theorem modification_cases
    (assembly : Assembly machine texts program after source lines sizes final) :
    ∀ line ∈ lines,
      (line.source.statement.hasMovingField = false ∧ line.modification = none) ∨
      (line.source.statement.hasMovingField = true ∧ ∃ modification,
        line.modification = some modification ∧
        modification.Locates after.symbols program.texts
          (line.source, ListingLine.ofObjectLine line)) := by
  intro line member
  obtain ⟨position, present⟩ := List.getElem?_of_mem member
  obtain ⟨here, size, next, _, _, made⟩ := assembly.trail.getElem present
  rcases Statement.modification_cases (assembly.admissible line member) made.generated with
    ⟨still, none⟩ | ⟨moves, named, operand, code, flags, address, isOperand, known, small, bytes⟩
  · exact .inl ⟨still, none⟩
  · rw [← made.address_eq] at named
    simp only at named bytes
    have four : line.bytes.length = 4 := by rw [bytes, MachineCode.length_bytes]; rfl
    obtain ⟨text, inTexts, holds⟩ := assembly.exists_text_of_line member
      (List.length_pos_iff.mp (by omega)) (by rw [four]; decide)
    have field := (bytes ▸ holds).field? small
    obtain ⟨front, back, textBytes, start⟩ := holds
    have length : text.bytes.length = front.length + 4 + back.length := by
      rw [textBytes, List.length_append, List.length_append, four, Nat.add_assoc]
    refine .inr ⟨moves, _, named, rfl, rfl, operand, address, text, isOperand, known, small,
      inTexts, ?_, ?_, field, fun other inOthers before behind => ?_⟩
    · simp only
      omega
    · simp only
      omega
    · simp only at before behind
      exact assembly.ordered.eq_of_common inTexts inOthers (by omega) (by omega)

/-- The modifications of a program belong, one to one and in order, to the listed statements with a
moving field. -/
theorem forall₂_locates
    (assembly : Assembly machine texts program after source lines sizes final) :
    List.Forall₂ (Modification.Locates after.symbols program.texts)
      (((SourceLine.throughEnd source).zip after.listing).filter
        fun listed => listed.1.statement.hasMovingField)
      program.modifications := by
  have modifications : program.modifications = lines.filterMap ObjectLine.modification := by
    rw [assembly.program_eq]
  rw [modifications, ← assembly.sources_eq, assembly.listing_eq, List.zip_map']
  exact ObjectLine.forall₂_modifications assembly.modification_cases

/-- The fields of different statements do not touch. -/
theorem pairwise_modifications
    (assembly : Assembly machine texts program after source lines sizes final) :
    program.modifications.Pairwise fun left right => left.address + 4 ≤ right.address := by
  rw [assembly.program_eq]
  apply List.pairwise_filterMap.mpr
  refine (List.Pairwise.and_mem.mp assembly.laid.pairwise).imp ?_
  rintro left right ⟨member, otherMember, apart⟩ modification named other otherNamed
  obtain ⟨four, rfl⟩ := assembly.trail.modification_eq left member modification named
  obtain ⟨_, rfl⟩ := assembly.trail.modification_eq right otherMember other otherNamed
  simp only
  omega

/-- SIC has no extended format, so nothing is modified. -/
theorem modifications_sic
    (assembly : Assembly .sic texts program after source lines sizes final) :
    program.modifications = [] := by
  rw [assembly.program_eq]
  apply List.filterMap_eq_nil_iff.mpr
  intro line member
  rcases assembly.modification_cases line member with ⟨_, none⟩ | ⟨moves, _⟩
  · exact none
  · have extended : line.source.statement.extended = true := by
      simp only [Statement.hasMovingField, Bool.and_eq_true] at moves
      exact moves.1
    cases ((assembly.admissible line member).extended_cases extended).1

end Assembly

/-- The modifications are exactly right. The records of a program below 2 ^ 24 have, in source
order, one modification for each listed statement that is extended and has an operand without `#`,
and no other; a SIC program has none. Each of them names a field of twenty bits that lies behind the
first byte of its statement, in a single text record, and holds the address of the label that the
statement names. Modified fields start at least four bytes apart. -/
theorem modifications_locate_moving_fields {state after : Assembler} {texts : List String}
    {program : ObjectProgram} (assembled : state.assemble texts = (.ok program, after))
    (small : after.start + after.length < 2 ^ 24) :
    ∃ (source : List SourceLine) (loaded : ObjectProgram),
      SourceLine.parseAll state.machine texts = .ok source ∧
      ObjectProgram.read? program.records = some loaded ∧
      after.listing.length = (SourceLine.throughEnd source).length ∧
      List.Forall₂ (Modification.Locates after.symbols loaded.texts)
        (((SourceLine.throughEnd source).zip after.listing).filter
          fun listed => listed.1.statement.hasMovingField)
        loaded.modifications ∧
      (state.machine = .sic → loaded.modifications = []) ∧
      loaded.modifications.Pairwise fun left right => left.address + 4 ≤ right.address := by
  obtain ⟨source, lines, sizes, final, assembly⟩ := Assembler.assemble_eq_ok_iff.mp assembled
  refine ⟨source, program.shown, assembly.parsed,
    ObjectProgram.read?_records (assembly.fitsColumns small), ?_, ?_, ?_, ?_⟩
  · rw [assembly.listing_eq, ← assembly.sources_eq, List.length_map, List.length_map]
  · rw [ObjectProgram.texts_shown, ObjectProgram.modifications_shown]
    exact assembly.forall₂_locates
  · intro sic
    rw [sic] at assembly
    rw [ObjectProgram.modifications_shown, assembly.modifications_sic]
  · rw [ObjectProgram.modifications_shown]
    exact assembly.pairwise_modifications

theorem modifications_locate_moving_fields_around_immediate :
    ∃ (program loaded : ObjectProgram) (after : Assembler) (source : List SourceLine),
      Assembler.assemble { machine := .xe }
        ["P START 10", "A +LDA B", " +LDT #5", " RESB 2", "B +STA @A"] = (.ok program, after) ∧
      after.start + after.length = 30 ∧
      ObjectProgram.read? program.records = some loaded ∧ loaded.modifications.length = 2 ∧
      List.Forall₂ (Modification.Locates after.symbols loaded.texts)
        (((SourceLine.throughEnd source).zip after.listing).filter
          fun listed => listed.1.statement.hasMovingField)
        loaded.modifications := by
  have assembled : Assembler.assemble { machine := .xe }
      ["P START 10", "A +LDA B", " +LDT #5", " RESB 2", "B +STA @A"] =
      (.ok ⟨⟨"P", 16, 14⟩,
        [⟨16, [0x03, 0x10, 0x00, 0x1A, 0x75, 0x10, 0x00, 0x05]⟩, ⟨26, [0x0E, 0x10, 0x00, 0x10]⟩],
        [⟨17, 5⟩, ⟨27, 5⟩], 16⟩,
        { machine := .xe, name := "P", start := 16, length := 14
          symbols := ⟨[("B", 26), ("A", 16), ("P", 16)], by decide⟩
          listing :=
            [⟨1, 16, "P START 10", ""⟩, ⟨2, 16, "A +LDA B", "0310001A"⟩,
              ⟨3, 20, "+LDT #5", "75100005"⟩, ⟨4, 24, "RESB 2", ""⟩,
              ⟨5, 26, "B +STA @A", "0E100010"⟩] }) := by
    decide +kernel
  have read : SourceLine.parseAll .xe
      ["P START 10", "A +LDA B", " +LDT #5", " RESB 2", "B +STA @A"] =
      .ok [⟨1, "P START 10", ⟨some "P", .directive .start, some ⟨"10"⟩, false⟩⟩,
        ⟨2, "A +LDA B", ⟨some "A", .machine ⟨"LDA", 0x00, .three⟩, some ⟨"B"⟩, true⟩⟩,
        ⟨3, " +LDT #5", ⟨none, .machine ⟨"LDT", 0x74, .three⟩, some ⟨"#5"⟩, true⟩⟩,
        ⟨4, " RESB 2", ⟨none, .directive .reserveBytes, some ⟨"2"⟩, false⟩⟩,
        ⟨5, "B +STA @A", ⟨some "B", .machine ⟨"STA", 0x0C, .three⟩, some ⟨"@A"⟩, true⟩⟩] := by
    decide +kernel
  obtain ⟨source, loaded, parsed, loads, _, located, _, _⟩ :=
    modifications_locate_moving_fields assembled (by decide)
  cases parsed.symm.trans read
  exact ⟨_, loaded, _, _, assembled, rfl, loads, located.length_eq.symm, located⟩

end SicAssembler
