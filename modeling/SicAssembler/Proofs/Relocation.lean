import SicAssembler.Proofs.Loading
import SicAssembler.Proofs.MovedProgram

/-! # Relocation

A loader that puts a program above the place it was assembled for adds the distance to every field
that a modification names and moves all bytes. The memory is then the same as if the program had
been assembled for its new place: the modifications name all fields that have to change, and no
others.
-/

namespace SicAssembler

private theorem MachineCode.bytes_format4 (code : UInt8) (flags : Flags) {address : Nat}
    (small : address < 0x100000) :
    (format4 code flags address).bytes =
      [UInt8.ofNat ((code.toNat + flags.ni) % 256),
        UInt8.ofNat (flags.xbpe * 16 + address / 0x10000),
        UInt8.ofNat (address / 0x100 % 256), UInt8.ofNat (address % 256)] := by
  have four := flags.xbpe_lt
  simp only [bytes, size, value, BigEndian.encode, List.nil_append, List.cons_append,
    List.cons.injEq, and_true]
  refine ⟨?_, ?_, ?_, ?_⟩ <;> congr 1 <;> omega

namespace Memory

@[simp] theorem ofCells_cons (address query : Nat) (byte : UInt8) (rest : List Cell) :
    ofCells ((address, byte) :: rest) query =
      if query = address then some byte else ofCells rest query := by
  unfold ofCells
  rw [List.lookup_cons]
  by_cases same : query = address
  · rw [if_pos same, beq_iff_eq.mpr same]
  · rw [if_neg same, beq_eq_false_iff_ne.mpr same]

private theorem ofCells_append (front back : List Cell) (query : Nat) :
    ofCells (front ++ back) query = (ofCells front query).or (ofCells back query) :=
  List.lookup_append

private theorem ofCells_eq_none {cells : List Cell} {query : Nat}
    (absent : ∀ cell ∈ cells, cell.1 ≠ query) : ofCells cells query = none := by
  apply List.lookup_eq_none_iff.mpr
  intro cell member
  rw [bne_iff_ne]
  exact (absent cell member).symm

/-- What four bytes behind other cells do to memory. -/
theorem ofCells_four {front : List Cell} {address : Nat}
    (before : ∀ cell ∈ front, cell.1 < address) (first second third fourth : UInt8)
    (back : List Cell) (query : Nat) :
    ofCells (front ++ (cellsFrom address [first, second, third, fourth] ++ back)) query =
      if query = address + 1 then some second
      else if query = address + 2 then some third
      else if query = address + 3 then some fourth
      else ofCells (front ++ (address, first) :: back) query := by
  simp only [cellsFrom_cons, cellsFrom_nil, List.cons_append, List.nil_append,
    ofCells_append front, ofCells_cons]
  rcases Nat.lt_or_ge address query with above | below
  · have absent : ofCells front query = none :=
      ofCells_eq_none fun cell member => by have := before cell member; omega
    have notFirst : query ≠ address := by omega
    rw [absent, Option.none_or, Option.none_or, if_neg notFirst, if_neg notFirst]
  · have notSecond : query ≠ address + 1 := by omega
    have notThird : query ≠ address + 2 := by omega
    have notFourth : query ≠ address + 3 := by omega
    rw [if_neg notSecond, if_neg notThird, if_neg notFourth, if_neg notSecond, if_neg notThird,
      if_neg notFourth]

/-- The field of a format 4 instruction holds the address that the instruction refers to. -/
theorem field?_format4 {front : List Cell} {place : Nat}
    (before : ∀ cell ∈ front, cell.1 < place) (code : UInt8) (flags : Flags) {address : Nat}
    (small : address < 0x100000) (back : List Cell) :
    field? (ofCells (front ++ (cellsFrom place (MachineCode.format4 code flags address).bytes ++
      back))) (place + 1) = some address := by
  have four := flags.xbpe_lt
  have thirdNotSecond : place + 1 + 1 ≠ place + 1 := by omega
  have fourthNotSecond : place + 1 + 2 ≠ place + 1 := by omega
  have fourthNotThird : place + 1 + 2 ≠ place + 2 := by omega
  have high : (UInt8.ofNat (flags.xbpe * 16 + address / 0x10000)).toNat % 16 =
      address / 0x10000 := by
    rw [UInt8.toNat_ofNat']
    omega
  have middle : (UInt8.ofNat (address / 0x100 % 256)).toNat = address / 0x100 % 256 := by
    rw [UInt8.toNat_ofNat']
    omega
  have low : (UInt8.ofNat (address % 256)).toNat = address % 256 := by
    rw [UInt8.toNat_ofNat']
    omega
  rw [MachineCode.bytes_format4 code flags small]
  simp only [field?, ofCells_four before, if_neg thirdNotSecond, if_neg fourthNotSecond,
    if_neg fourthNotThird, if_true, bind, Option.bind_some, high, middle, low, pure,
    Option.some.injEq]
  omega

/-- Adding a distance to the field of a format 4 instruction makes it the instruction that refers to
the address at that distance. -/
theorem addToField_format4 {front : List Cell} {place : Nat}
    (before : ∀ cell ∈ front, cell.1 < place) (code : UInt8) (flags : Flags)
    {address distance : Nat} (small : address + distance < 0x100000) (back : List Cell) :
    addToField distance
        (ofCells (front ++
          (cellsFrom place (MachineCode.format4 code flags address).bytes ++ back)))
        ⟨place + 1, 5⟩ =
      ofCells (front ++
        (cellsFrom place (MachineCode.format4 code flags (address + distance)).bytes ++ back)) := by
  have four := flags.xbpe_lt
  have addressSmall : address < 0x100000 := by omega
  have field := field?_format4 before code flags addressSmall back
  rw [MachineCode.bytes_format4 code flags addressSmall] at field ⊢
  rw [MachineCode.bytes_format4 code flags small]
  simp only [addToField, field]
  funext query
  simp only [setField, ofCells_four before]
  by_cases atSecond : query = place + 1
  · subst atSecond
    have high : (UInt8.ofNat (flags.xbpe * 16 + address / 0x10000)).toNat / 16 * 16 =
        flags.xbpe * 16 := by
      rw [UInt8.toNat_ofNat']
      omega
    have low : (address + distance) / 0x10000 % 16 = (address + distance) / 0x10000 := by omega
    rw [if_pos rfl, if_pos rfl, if_pos rfl, Option.map_some, high, low]
  · rw [if_neg atSecond, if_neg atSecond, if_neg atSecond]
    by_cases atThird : query = place + 2
    · rw [if_pos atThird, if_pos atThird, if_pos atThird, Option.map_some]
    · rw [if_neg atThird, if_neg atThird, if_neg atThird]
      by_cases atFourth : query = place + 3
      · rw [if_pos atFourth, if_pos atFourth, if_pos atFourth, Option.map_some]
      · rw [if_neg atFourth, if_neg atFourth, if_neg atFourth]

/-- Moving memory moves its cells. -/
theorem move_ofCells (distance : Nat) (cells : List Cell) :
    move distance (ofCells cells) =
      ofCells (cells.map fun cell => (cell.1 + distance, cell.2)) := by
  funext query
  induction cells with
  | nil => simp [move, ofCells]
  | cons cell rest ih =>
    obtain ⟨address, byte⟩ := cell
    rw [List.map_cons, ofCells_cons, ← ih]
    unfold move
    by_cases above : distance ≤ query
    · rw [if_pos above, if_pos above, ofCells_cons]
      exact if_congr (by omega) rfl rfl
    · rw [if_neg above, if_neg above, if_neg (by omega)]

end Memory

private theorem map_cellsFrom (distance address : Nat) (bytes : List UInt8) :
    (cellsFrom address bytes).map (fun cell => (cell.1 + distance, cell.2)) =
      cellsFrom (address + distance) bytes := by
  induction bytes generalizing address with
  | nil => rfl
  | cons byte rest ih =>
    rw [cellsFrom_cons, List.map_cons, ih, cellsFrom_cons, Nat.add_right_comm]

namespace ObjectLine

variable {distance : Nat} {lines others : List ObjectLine}

/-- The modification of a line, if it has one, changes its code into that of the line that moved. -/
theorem Moved.foldl_addToField {line other : ObjectLine} (moved : line.Moved distance other)
    (field : ∀ modification, line.modification = some modification →
      line.bytes.length = 4 ∧ modification = ⟨line.address + 1, 5⟩)
    {front : List Cell} (before : ∀ cell ∈ front, cell.1 < line.address) (back : List Cell) :
    line.modification.toList.foldl (Memory.addToField distance)
        (Memory.ofCells (front ++ (line.cells ++ back))) =
      Memory.ofCells (front ++ (cellsFrom line.address other.bytes ++ back)) := by
  rw [ObjectLine.cells]
  cases moved.code with
  | same none _ bytes =>
    rw [none, bytes]
    rfl
  | field small bytes named others _ =>
    obtain ⟨_, rfl⟩ := field _ named
    rw [named, bytes, others]
    exact Memory.addToField_format4 before _ _ small back

private theorem filterMap_modification_cons (line : ObjectLine) (rest : List ObjectLine) :
    (line :: rest).filterMap ObjectLine.modification =
      line.modification.toList ++ rest.filterMap ObjectLine.modification := by
  cases named : line.modification with
  | none => rw [List.filterMap_cons_none named, Option.toList_none, List.nil_append]
  | some modification =>
    rw [List.filterMap_cons_some named, Option.toList_some, List.singleton_append]

/-- Applying the modifications of lines gives the code of the lines that moved, still at the old
addresses. Cells in front are those of lines that have been dealt with. -/
theorem foldl_addToField (moved : List.Forall₂ (Moved distance) lines others)
    (fields : ∀ line ∈ lines, ∀ modification, line.modification = some modification →
      line.bytes.length = 4 ∧ modification = ⟨line.address + 1, 5⟩)
    {address finish : Nat} (laid : Laid address lines finish) {front : List Cell}
    (before : ∀ cell ∈ front, cell.1 < address) :
    ∃ patched : List Cell,
      (lines.filterMap ObjectLine.modification).foldl (Memory.addToField distance)
          (Memory.ofCells (front ++ lines.flatMap ObjectLine.cells)) =
        Memory.ofCells (front ++ patched) ∧
      patched.map (fun cell => (cell.1 + distance, cell.2)) = others.flatMap ObjectLine.cells := by
  induction moved generalizing address front with
  | nil => exact ⟨[], rfl, rfl⟩
  | @cons line other rest otherRest movedHere _ ih =>
    obtain ⟨fieldsHere, fieldsRest⟩ := List.forall_mem_cons.mp fields
    obtain ⟨rfl, next, behind, laidRest⟩ := laid.uncons
    have length := movedHere.code.length_eq
    have beforeRest : ∀ cell ∈ front ++ cellsFrom line.address other.bytes, cell.1 < next := by
      intro cell member
      rcases List.mem_append.mp member with inFront | inLine
      · have := before cell inFront
        omega
      · have := bounds_of_mem_cellsFrom inLine
        omega
    obtain ⟨patched, folded, moves⟩ := ih fieldsRest laidRest beforeRest
    refine ⟨cellsFrom line.address other.bytes ++ patched, ?_, ?_⟩
    · rw [List.flatMap_cons, filterMap_modification_cons, List.foldl_append,
        movedHere.foldl_addToField fieldsHere before, ← List.append_assoc, folded,
        List.append_assoc]
    · rw [List.map_append, map_cellsFrom, moves, List.flatMap_cons, ← movedHere.address_eq]
      rfl

end ObjectLine

/-- What the statements of an assembled program have to fulfil so that modifications are all it
takes to move it. -/
structure Relocatable (after : Assembler) (listed : List SourceLine) : Prop where
  /-- No statement in format 4 has an immediate operand that is a label. -/
  free : ∀ line ∈ listed, line.statement.extended = true →
    ∀ operand, line.statement.operand = some operand → operand.isImmediate = true →
    after.symbols.get? operand.key = none
  /-- Every `BASE` names a label. -/
  named : ∀ line ∈ listed, line.statement.operation = .directive .base →
    ∀ operand, line.statement.operand = some operand → (after.symbols.get? operand.key).isSome
  /-- Every format 3 instruction that counts from the base stands behind a `BASE`. -/
  anchored : ∀ (position : Nat) (line : SourceLine) (entry : ListingLine) (found : Instruction),
    listed[position]? = some line → after.listing[position]? = some entry →
    line.statement.operation = .machine found → found.format = .three →
    line.statement.extended = false →
    (∃ code flags field tail,
      MachineCode.decode? .xe entry.bytes = some (.format3 code flags field, tail) ∧
        flags.b = true) →
    ∃ earlier < position, ∃ base : SourceLine, listed[earlier]? = some base ∧
      base.statement.operation = .directive .base

def Assembler.moved (distance : Nat) (after : Assembler) (lines : List ObjectLine) : Assembler where
  machine := .xe
  name := after.name
  start := after.start + distance
  length := after.length
  symbols := after.symbols.moved distance
  listing := lines.map ListingLine.ofObjectLine

namespace Assembly

variable {texts otherTexts : List String} {program : ObjectProgram} {after : Assembler}
  {opening otherOpening : SourceLine} {rest otherRest : List SourceLine} {lines : List ObjectLine}
  {sizes : List Nat} {final : Site} {start distance : Nat}

private theorem allMovable {source : List SourceLine}
    (assembly : Assembly .xe texts program after source lines sizes final)
    (relocatable : Relocatable after (SourceLine.throughEnd source)) :
    ObjectLine.AllMovable after.symbols false lines := by
  have listed (line : ObjectLine) (member : line ∈ lines) :
      line.source ∈ SourceLine.throughEnd source := by
    rw [← assembly.sources_eq]
    exact List.mem_map_of_mem member
  apply ObjectLine.allMovable_of_getElem
  · intro line member
    exact relocatable.free line.source (listed line member)
  · intro line member
    exact relocatable.named line.source (listed line member)
  · intro position line found present isMachine format plain counts
    have atPosition : (SourceLine.throughEnd source)[position]? = some line.source := by
      rw [← assembly.sources_eq, List.getElem?_map, present, Option.map_some]
    have entry : after.listing[position]? = some (ListingLine.ofObjectLine line) := by
      rw [assembly.listing_eq, List.getElem?_map, present, Option.map_some]
    rw [ObjectLine.CountsFromBase, ← ListingLine.bytes_ofObjectLine line] at counts
    obtain ⟨earlier, early, base, isThere, isBase⟩ :=
      relocatable.anchored position line.source _ found atPosition entry isMachine format plain
        counts
    rw [← assembly.sources_eq, List.getElem?_map] at isThere
    obtain ⟨object, atEarlier, rfl⟩ := Option.map_eq_some_iff.mp isThere
    refine .inr ⟨earlier, early, object, atEarlier, ?_⟩
    rw [Statement.isBase, beq_iff_eq]
    exact isBase

/-- A program that is alike but for a higher `START` can be assembled as well. -/
theorem moved
    (assembly : Assembly .xe texts program after (opening :: rest) lines sizes final)
    (otherParsed : SourceLine.parseAll .xe otherTexts = .ok (otherOpening :: otherRest))
    (alike : List.Forall₂ SourceLine.Alike (opening :: rest) (otherOpening :: otherRest))
    (isStart : opening.statement.operation = .directive .start)
    (read : opening.statement.startAddress = .ok start)
    (otherRead : otherOpening.statement.startAddress = .ok (start + distance))
    (movable : ObjectLine.AllMovable after.symbols false lines)
    (below : after.start + after.length + distance < 0x100000) :
    ∃ otherProgram otherAfter otherLines otherFinal,
      Assembly .xe otherTexts otherProgram otherAfter (otherOpening :: otherRest) otherLines sizes
        otherFinal ∧
      List.Forall₂ (ObjectLine.Moved distance) lines otherLines ∧
      otherAfter.name = after.name ∧ otherAfter.start = after.start + distance ∧
      otherAfter.length = after.length := by
  have limit : Address.limit = 0x100000000 := rfl
  have bound : after.start + after.length + distance < Address.limit := by omega
  have placed := Layout.ofLines_moved alike isStart read otherRead assembly.placed bound
  have listed := SourceLine.forall₂_throughEnd alike
  rw [← assembly.sources_eq] at listed
  have site : Site.Moved distance false after.origin ⟨after.start + distance, 0⟩ :=
    ⟨rfl, fun known => absurd known Bool.false_ne_true⟩
  have labels (name : String) (address : Nat) (known : after.symbols.get? name = some address) :
      address + distance < 0x100000 := by
    have := assembly.label_le known
    omega
  have finalBelow : final.address + distance < 0x100000 := by
    rw [assembly.final_address]
    exact below
  obtain ⟨otherLines, otherFinal, trail, sources, moved⟩ :=
    assembly.trail.moved assembly.admissible movable site finalBelow labels listed
  refine ⟨_, after.moved distance otherLines,
    otherLines, otherFinal, ⟨otherParsed, rfl, ?_, sources, trail, rfl, ?_, rfl⟩, moved, rfl, rfl,
    rfl⟩
  · have counter :
        after.start + after.length + distance = after.start + distance + after.length := by
      omega
    rw [placed, Layout.moved, counter]
    rfl
  · intro other member _
    obtain ⟨line, present, same⟩ := ObjectLine.exists_of_mem_moved moved other member
    have bounds := assembly.laid.bounds line present
    have address := same.address_eq
    have length := same.code.length_eq
    omega

/-- Loading the program at a distance gives the memory of the program that was assembled there. -/
theorem relocated_eq
    (assembly : Assembly .xe texts program after (opening :: rest) lines sizes final)
    {otherProgram : ObjectProgram} {otherAfter : Assembler} {otherLines : List ObjectLine}
    {otherFinal : Site}
    (other : Assembly .xe otherTexts otherProgram otherAfter (otherOpening :: otherRest) otherLines
      sizes otherFinal)
    (moved : List.Forall₂ (ObjectLine.Moved distance) lines otherLines) :
    program.relocated distance = otherProgram.memory := by
  have before : ∀ cell ∈ ([] : List Cell), cell.1 < after.start := by simp
  obtain ⟨patched, folded, moves⟩ :=
    ObjectLine.foldl_addToField moved assembly.trail.modification_eq assembly.laid before
  have modifications : program.modifications = lines.filterMap ObjectLine.modification := by
    rw [assembly.program_eq]
  rw [List.nil_append, List.nil_append] at folded
  rw [ObjectProgram.relocated, ObjectProgram.memory, modifications, assembly.cells_eq, folded,
    Memory.move_ofCells, moves, ObjectProgram.memory, other.cells_eq]

end Assembly

@[simp] theorem ObjectProgram.relocated_shown (distance : Nat) (program : ObjectProgram) :
    program.shown.relocated distance = program.relocated distance := by
  rw [relocated, relocated, modifications_shown, memory, memory, cells_shown]

/-- Programs that are the same but for the address in `START` are alike. -/
theorem SourceLine.alike_of_map_statement {rest others : List SourceLine}
    (same : others.map SourceLine.statement = rest.map SourceLine.statement) :
    List.Forall₂ Alike rest others := by
  induction rest generalizing others with
  | nil =>
    cases List.map_eq_nil_iff.mp same
    exact .nil
  | cons line rest ih =>
    obtain ⟨other, others, rfl, here, later⟩ := List.map_eq_cons_iff.mp same
    exact .cons (.inl here) (ih later)

/-- Relocation is sound. Take two programs for SIC/XE whose statements are the same but for the
address in `START`, of which the first can be assembled. If none of its statements in format 4 has
an immediate label, its bases are labels, and what counts from the base stands behind a `BASE`, then
the second one can be assembled too. Its records are those of the first one at the higher address,
and loading the first one at the distance fills memory as loading the second one does. -/
theorem relocation_equals_assembly_elsewhere {state other after : Assembler}
    {texts otherTexts : List String} {program : ObjectProgram} {opening otherOpening : SourceLine}
    {rest otherRest : List SourceLine} {start distance : Nat}
    (machine : state.machine = .xe) (otherMachine : other.machine = .xe)
    (parsed : SourceLine.parseAll .xe texts = .ok (opening :: rest))
    (otherParsed : SourceLine.parseAll .xe otherTexts = .ok (otherOpening :: otherRest))
    (isStart : opening.statement.operation = .directive .start)
    (read : opening.statement.startAddress = .ok start)
    (otherRead : otherOpening.statement.startAddress = .ok (start + distance))
    (sameOpening : otherOpening.statement =
      { opening.statement with operand := otherOpening.statement.operand })
    (sameRest : otherRest.map SourceLine.statement = rest.map SourceLine.statement)
    (assembled : state.assemble texts = (.ok program, after))
    (small : start + after.length + distance ≤ 0xFFFFF)
    (relocatable : Relocatable after (SourceLine.throughEnd (opening :: rest))) :
    ∃ (otherProgram loaded otherLoaded : ObjectProgram) (otherAfter : Assembler),
      other.assemble otherTexts = (.ok otherProgram, otherAfter) ∧
      ObjectProgram.read? program.records = some loaded ∧
      ObjectProgram.read? otherProgram.records = some otherLoaded ∧
      loaded.header = ⟨Header.nameColumn after.name, start, after.length⟩ ∧
      otherLoaded.header = ⟨Header.nameColumn after.name, start + distance, after.length⟩ ∧
      otherLoaded.texts.map (fun text => (text.start, text.bytes.length)) =
        loaded.texts.map (fun text => (text.start + distance, text.bytes.length)) ∧
      otherLoaded.modifications =
        loaded.modifications.map (fun field => ⟨field.address + distance, field.halfBytes⟩) ∧
      otherLoaded.entry = loaded.entry + distance ∧
      loaded.relocated distance = otherLoaded.memory := by
  obtain ⟨source, lines, sizes, final, assembly⟩ := Assembler.assemble_eq_ok_iff.mp assembled
  rw [machine] at assembly
  cases parsed.symm.trans assembly.parsed
  have startEq : after.start = start :=
    Layout.start_eq_of_ofLines isStart read assembly.placed
  have alike : List.Forall₂ SourceLine.Alike (opening :: rest) (otherOpening :: otherRest) :=
    .cons (.inr ⟨isStart, sameOpening⟩) (SourceLine.alike_of_map_statement sameRest)
  have below : after.start + after.length + distance < 0x100000 := by omega
  obtain ⟨otherProgram, otherAfter, otherLines, otherFinal, otherAssembly, moved, nameEq,
    otherStart, lengthEq⟩ := assembly.moved otherParsed alike isStart read otherRead
      (assembly.allMovable relocatable) below
  have fits := assembly.fitsColumns (by omega)
  have otherFits := otherAssembly.fitsColumns (by omega)
  refine ⟨otherProgram, program.shown, otherProgram.shown, otherAfter, ?_,
    ObjectProgram.read?_records fits, ObjectProgram.read?_records otherFits, ?_, ?_, ?_, ?_, ?_, ?_⟩
  · rw [← otherMachine] at otherAssembly
    exact Assembler.assemble_eq_ok_iff.mpr ⟨_, _, _, _, otherAssembly⟩
  · rw [assembly.header_shown, startEq]
  · rw [otherAssembly.header_shown, nameEq, otherStart, lengthEq, startEq]
  · rw [ObjectProgram.texts_shown, ObjectProgram.texts_shown, assembly.program_eq,
      otherAssembly.program_eq, otherStart]
    exact TextRecord.map_moved (Piece.forall₂_pack ⟨rfl, rfl⟩ (Piece.forall₂_cut moved false))
  · rw [ObjectProgram.modifications_shown, ObjectProgram.modifications_shown, assembly.program_eq,
      otherAssembly.program_eq]
    exact ObjectLine.filterMap_modification_moved moved
  · rw [ObjectProgram.entry_shown, ObjectProgram.entry_shown, assembly.program_eq,
      otherAssembly.program_eq, otherStart]
  · rw [ObjectProgram.relocated_shown, assembly.relocated_eq otherAssembly moved,
      ObjectProgram.memory, ObjectProgram.memory, ObjectProgram.cells_shown]

theorem relocation_equals_assembly_elsewhere_by_4096 :
    ∃ (program otherProgram loaded otherLoaded : ObjectProgram) (after otherAfter : Assembler),
      Assembler.assemble { machine := .xe }
        ["P START 0", " BASE P", " RESB 3000", " LDA P", " +LDX P"] = (.ok program, after) ∧
      Assembler.assemble { machine := .xe }
        ["P START 1000", " BASE P", " RESB 3000", " LDA P", " +LDX P"] =
          (.ok otherProgram, otherAfter) ∧
      ObjectProgram.read? program.records = some loaded ∧
      ObjectProgram.read? otherProgram.records = some otherLoaded ∧
      otherLoaded.header.start = 0x1000 ∧ loaded.header.start = 0 ∧
      loaded.relocated 0x1000 = otherLoaded.memory := by
  have assembled : Assembler.assemble { machine := .xe }
      ["P START 0", " BASE P", " RESB 3000", " LDA P", " +LDX P"] =
      (.ok ⟨⟨"P", 0, 3007⟩, [⟨3000, [0x03, 0x40, 0x00, 0x07, 0x10, 0x00, 0x00]⟩], [⟨3004, 5⟩], 0⟩,
        { machine := .xe, name := "P", start := 0, length := 3007
          symbols := ⟨[("P", 0)], by decide⟩
          listing :=
            [⟨1, 0, "P START 0", ""⟩, ⟨2, 0, "BASE P", ""⟩, ⟨3, 0, "RESB 3000", ""⟩,
              ⟨4, 3000, "LDA P", "034000"⟩, ⟨5, 3003, "+LDX P", "07100000"⟩] }) := by
    decide +kernel
  have parsed : SourceLine.parseAll .xe
      ["P START 0", " BASE P", " RESB 3000", " LDA P", " +LDX P"] =
      .ok [⟨1, "P START 0", ⟨some "P", .directive .start, some ⟨"0"⟩, false⟩⟩,
        ⟨2, " BASE P", ⟨none, .directive .base, some ⟨"P"⟩, false⟩⟩,
        ⟨3, " RESB 3000", ⟨none, .directive .reserveBytes, some ⟨"3000"⟩, false⟩⟩,
        ⟨4, " LDA P", ⟨none, .machine ⟨"LDA", 0x00, .three⟩, some ⟨"P"⟩, false⟩⟩,
        ⟨5, " +LDX P", ⟨none, .machine ⟨"LDX", 0x04, .three⟩, some ⟨"P"⟩, true⟩⟩] := by
    decide +kernel
  have otherParsed : SourceLine.parseAll .xe
      ["P START 1000", " BASE P", " RESB 3000", " LDA P", " +LDX P"] =
      .ok [⟨1, "P START 1000", ⟨some "P", .directive .start, some ⟨"1000"⟩, false⟩⟩,
        ⟨2, " BASE P", ⟨none, .directive .base, some ⟨"P"⟩, false⟩⟩,
        ⟨3, " RESB 3000", ⟨none, .directive .reserveBytes, some ⟨"3000"⟩, false⟩⟩,
        ⟨4, " LDA P", ⟨none, .machine ⟨"LDA", 0x00, .three⟩, some ⟨"P"⟩, false⟩⟩,
        ⟨5, " +LDX P", ⟨none, .machine ⟨"LDX", 0x04, .three⟩, some ⟨"P"⟩, true⟩⟩] := by
    decide +kernel
  have read : Statement.startAddress ⟨some "P", .directive .start, some ⟨"0"⟩, false⟩ = .ok 0 := by
    decide +kernel
  have otherRead : Statement.startAddress ⟨some "P", .directive .start, some ⟨"1000"⟩, false⟩ =
      .ok (0 + 0x1000) := by
    decide +kernel
  have moves := relocation_equals_assembly_elsewhere rfl
    (show Assembler.machine { machine := .xe } = .xe from rfl) parsed otherParsed rfl read otherRead
    rfl rfl assembled (by decide)
  have relocatable : Relocatable
      { machine := .xe, name := "P", start := 0, length := 3007
        symbols := ⟨[("P", 0)], by decide⟩
        listing :=
          [⟨1, 0, "P START 0", ""⟩, ⟨2, 0, "BASE P", ""⟩, ⟨3, 0, "RESB 3000", ""⟩,
            ⟨4, 3000, "LDA P", "034000"⟩, ⟨5, 3003, "+LDX P", "07100000"⟩] }
      [⟨1, "P START 0", ⟨some "P", .directive .start, some ⟨"0"⟩, false⟩⟩,
        ⟨2, " BASE P", ⟨none, .directive .base, some ⟨"P"⟩, false⟩⟩,
        ⟨3, " RESB 3000", ⟨none, .directive .reserveBytes, some ⟨"3000"⟩, false⟩⟩,
        ⟨4, " LDA P", ⟨none, .machine ⟨"LDA", 0x00, .three⟩, some ⟨"P"⟩, false⟩⟩,
        ⟨5, " +LDX P", ⟨none, .machine ⟨"LDX", 0x04, .three⟩, some ⟨"P"⟩, true⟩⟩] := by
    have known : (SymbolTable.get? ⟨[("P", 0)], by decide⟩ (Operand.key ⟨"P"⟩)).isSome = true := by
      decide
    refine ⟨by simp [Operand.isImmediate], by simp [known], ?_⟩
    intro position line entry found present _ isMachine _ _ _
    rcases position with _ | _ | position
    · cases present
      cases isMachine
    · cases present
      cases isMachine
    · exact ⟨1, by omega, _, rfl, rfl⟩
  obtain ⟨otherProgram, loaded, otherLoaded, otherAfter, otherAssembled, loads, otherLoads, header,
    otherHeader, _, _, _, memory⟩ := moves relocatable
  exact ⟨_, otherProgram, loaded, otherLoaded, _, otherAfter, assembled, otherAssembled, loads,
    otherLoads, congrArg Header.start otherHeader, congrArg Header.start header, memory⟩

end SicAssembler
