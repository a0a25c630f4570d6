import SicAssembler.ObjectProgram.Memory
import SicAssembler.ObjectProgram.Reader
import SicAssembler.Proofs.Assembly

/-! # Loading an object program

The text records of a program hold the object code of its lines, byte for byte and in address
order. A program whose addresses have six digits can be read back from its records, so loading the
records fills memory exactly as the listing says.
-/

namespace SicAssembler

theorem bounds_of_mem_cellsFrom {address : Nat} {bytes : List UInt8} {cell : Cell}
    (member : cell ∈ cellsFrom address bytes) :
    address ≤ cell.1 ∧ cell.1 < address + bytes.length := by
  induction bytes generalizing address with
  | nil => contradiction
  | cons byte rest ih =>
    rw [List.length_cons]
    rcases List.mem_cons.mp member with rfl | later
    · omega
    · have := ih later
      omega

private theorem pairwise_cellsFrom (address : Nat) (bytes : List UInt8) :
    (cellsFrom address bytes).Pairwise fun left right => left.1 < right.1 := by
  induction bytes generalizing address with
  | nil => exact List.Pairwise.nil
  | cons byte rest ih =>
    refine List.Pairwise.cons (fun cell later => ?_) (ih (address + 1))
    exact (bounds_of_mem_cellsFrom later).1

namespace TextRecord.Ordered

variable {low high : Nat} {records : List TextRecord}

private theorem bounds_of_mem_cells (ordered : Ordered low records high) {cell : Cell}
    (member : cell ∈ records.flatMap TextRecord.cells) : low ≤ cell.1 ∧ cell.1 < high := by
  obtain ⟨record, present, inRecord⟩ := List.mem_flatMap.mp member
  have bounds := ordered.bounds record present
  have inside := bounds_of_mem_cellsFrom inRecord
  omega

/-- No two bytes of ordered records have the same address. -/
theorem pairwise_cells (ordered : Ordered low records high) :
    (records.flatMap TextRecord.cells).Pairwise fun left right => left.1 < right.1 := by
  induction ordered with
  | nil => exact List.Pairwise.nil
  | @cons low high record rest _ _ _ others ih =>
    rw [List.flatMap_cons]
    refine List.pairwise_append.mpr
      ⟨pairwise_cellsFrom _ _, ih, fun left inFirst right inRest => ?_⟩
    have before := bounds_of_mem_cellsFrom inFirst
    have behind := others.bounds_of_mem_cells inRest
    omega

end TextRecord.Ordered

def ListingLine.cells (line : ListingLine) : List Cell := cellsFrom line.address line.bytes

@[simp] theorem ListingLine.cells_ofObjectLine (line : ObjectLine) :
    (ListingLine.ofObjectLine line).cells = line.cells := by
  rw [ListingLine.cells, ListingLine.bytes_ofObjectLine]
  rfl

@[simp] theorem ObjectProgram.cells_shown (program : ObjectProgram) :
    program.shown.cells = program.cells := by
  rw [cells, texts_shown, cells]

namespace Assembly

variable {machine : Machine} {texts : List String} {program : ObjectProgram} {after : Assembler}
  {source : List SourceLine} {lines : List ObjectLine} {sizes : List Nat} {final : Site}

theorem chain (assembly : Assembly machine texts program after source lines sizes final) :
    Piece.Chain after.start (Piece.cut false lines) (after.start + after.length) :=
  Piece.Chain.cut assembly.laid (Nat.le_refl _) fun _ => rfl

/-- The text records lie in order inside the program. -/
theorem ordered (assembly : Assembly machine texts program after source lines sizes final) :
    TextRecord.Ordered after.start program.texts (after.start + after.length) := by
  rw [assembly.program_eq]
  exact TextRecord.Ordered.pack (TextBuffer.ready_empty _ _) assembly.chain (Nat.le_refl _)

/-- The text records hold the code of the object lines and nothing else. -/
theorem cells_eq (assembly : Assembly machine texts program after source lines sizes final) :
    program.cells = lines.flatMap ObjectLine.cells := by
  have packed := Piece.cells_pack (TextBuffer.ready_empty after.start _) assembly.chain
  rw [ObjectProgram.cells, assembly.program_eq, packed, Piece.cells_cut]
  rfl

theorem listing_cells (assembly : Assembly machine texts program after source lines sizes final) :
    after.listing.flatMap ListingLine.cells = lines.flatMap ObjectLine.cells := by
  rw [assembly.listing_eq, List.flatMap_map]
  simp only [ListingLine.cells_ofObjectLine]

/-- A field that moves lies inside the program. -/
theorem modification_bounds
    (assembly : Assembly machine texts program after source lines sizes final)
    {modification : Modification} (member : modification ∈ program.modifications) :
    modification.address + 3 ≤ after.start + after.length ∧ modification.halfBytes = 5 := by
  rw [assembly.program_eq] at member
  obtain ⟨line, present, named⟩ := List.mem_filterMap.mp member
  obtain ⟨four, rfl⟩ := assembly.trail.modification_eq line present modification named
  have bounds := assembly.laid.bounds line present
  exact ⟨by simp only; omega, rfl⟩

theorem header_shown (assembly : Assembly machine texts program after source lines sizes final) :
    program.shown.header = ⟨Header.nameColumn after.name, after.start, after.length⟩ := by
  rw [ObjectProgram.shown, assembly.program_eq, Assembler.header]

theorem fitsColumns (assembly : Assembly machine texts program after source lines sizes final)
    (small : after.start + after.length < 2 ^ 24) : program.FitsColumns where
  start := by
    rw [assembly.program_eq]
    simp only [Assembler.header]
    omega
  length := by
    rw [assembly.program_eq]
    simp only [Assembler.header]
    omega
  texts := by
    intro text member
    have bounds := assembly.ordered.bounds text member
    unfold maxTextBytes at bounds
    omega
  modifications := by
    intro modification member
    have bounds := assembly.modification_bounds member
    omega
  entry := by
    rw [assembly.program_eq]
    simp only
    omega

end Assembly

/-- Loading restores the program. The records of a program below 2 ^ 24 are a header, texts,
modifications and an end, and can be read by their columns. The texts are ordered, disjoint and
inside the program, and the bytes in them are those of the listing, each at its own address. -/
theorem loading_restores_listing {state after : Assembler} {texts : List String}
    {program : ObjectProgram} (assembled : state.assemble texts = (.ok program, after))
    (small : after.start + after.length < 2 ^ 24) :
    ∃ loaded : ObjectProgram, ObjectProgram.read? program.records = some loaded ∧
      loaded.header = ⟨Header.nameColumn after.name, after.start, after.length⟩ ∧
      loaded.entry = after.start ∧
      program.records = Header.render ⟨after.name, after.start, after.length⟩ ::
        (loaded.texts.map TextRecord.render ++ loaded.modifications.map Modification.render ++
          [renderEnd after.start]) ∧
      (∀ text ∈ loaded.texts, 1 ≤ text.bytes.length ∧ text.bytes.length ≤ 30 ∧
        column? 2 (text.render.toList.drop 7) =
          some (text.bytes.length, Text.hexPairs text.bytes)) ∧
      loaded.texts.Pairwise (fun left right =>
        left.start < right.start ∧ left.start + left.bytes.length ≤ right.start) ∧
      (∀ text ∈ loaded.texts, after.start ≤ text.start ∧
        text.start + text.bytes.length ≤ after.start + after.length) ∧
      loaded.cells = after.listing.flatMap ListingLine.cells ∧
      loaded.cells.Pairwise (fun left right => left.1 < right.1) ∧
      loaded.memory = Memory.ofCells (after.listing.flatMap ListingLine.cells) := by
  obtain ⟨source, lines, sizes, final, assembly⟩ := Assembler.assemble_eq_ok_iff.mp assembled
  have fits := assembly.fitsColumns small
  have ordered := assembly.ordered
  have sameCells : program.shown.cells = after.listing.flatMap ListingLine.cells := by
    rw [ObjectProgram.cells_shown, assembly.cells_eq, assembly.listing_cells]
  have increasing : program.cells.Pairwise fun left right => left.1 < right.1 := by
    unfold ObjectProgram.cells
    exact ordered.pairwise_cells
  have headerEq : program.header = ⟨after.name, after.start, after.length⟩ := by
    rw [assembly.program_eq]
    rfl
  have entryEq : program.entry = after.start := by rw [assembly.program_eq]
  refine ⟨program.shown, ObjectProgram.read?_records fits, ?_, ?_, ?_, ?_, ?_, ?_, sameCells,
    ?_, congrArg Memory.ofCells sameCells⟩
  · exact assembly.header_shown
  · rw [ObjectProgram.entry_shown, entryEq]
  · rw [ObjectProgram.records, headerEq, entryEq, ObjectProgram.texts_shown,
      ObjectProgram.modifications_shown, List.cons_append, List.cons_append]
  · rw [ObjectProgram.texts_shown]
    intro text member
    obtain ⟨_, _, positive, short⟩ := ordered.bounds text member
    obtain ⟨start, count⟩ := fits.texts text member
    exact ⟨positive, short, (TextRecord.column?_render count start).2.2⟩
  · rw [ObjectProgram.texts_shown]
    refine (List.Pairwise.and_mem.mp ordered.pairwise).imp ?_
    rintro left right ⟨member, _, apart⟩
    have bounds := ordered.bounds left member
    exact ⟨by omega, apart⟩
  · rw [ObjectProgram.texts_shown]
    intro text member
    have bounds := ordered.bounds text member
    exact ⟨bounds.1, bounds.2.1⟩
  · rw [ObjectProgram.cells_shown]
    exact increasing

theorem loading_restores_listing_with_gap :
    ∃ (program loaded : ObjectProgram) (after : Assembler),
      Assembler.assemble { machine := .xe }
        ["P START 10", "A +LDA B", "  RESB 2", "B BYTE X'0F'", "Z END A"] = (.ok program, after) ∧
      after.start + after.length = 23 ∧ ObjectProgram.read? program.records = some loaded ∧
      loaded.cells = [(16, 0x03), (17, 0x10), (18, 0x00), (19, 0x16), (22, 0x0F)] := by
  have assembled : Assembler.assemble { machine := .xe }
      ["P START 10", "A +LDA B", "  RESB 2", "B BYTE X'0F'", "Z END A"] =
      (.ok ⟨⟨"P", 16, 7⟩, [⟨16, [0x03, 0x10, 0x00, 0x16]⟩, ⟨22, [0x0F]⟩], [⟨17, 5⟩], 16⟩,
        { machine := .xe, name := "P", start := 16, length := 7
          symbols := ⟨[("Z", 23), ("B", 22), ("A", 16), ("P", 16)], by decide⟩
          listing :=
            [⟨1, 16, "P START 10", ""⟩, ⟨2, 16, "A +LDA B", "03100016"⟩, ⟨3, 20, "RESB 2", ""⟩,
              ⟨4, 22, "B BYTE X'0F'", "0F"⟩, ⟨5, 23, "Z END A", ""⟩] }) := by
    decide +kernel
  obtain ⟨loaded, read, _, _, _, _, _, _, cells, _, _⟩ :=
    loading_restores_listing assembled (by decide)
  exact ⟨_, loaded, _, assembled, rfl, read, cells.trans (by decide +kernel)⟩

end SicAssembler
