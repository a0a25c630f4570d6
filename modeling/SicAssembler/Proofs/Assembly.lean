import SicAssembler.Assembler
import SicAssembler.Proofs.Columns
import SicAssembler.Proofs.TextRecords

/-! # Successful assemblies

A successful assembly is a layout of the program proper and a trail of object lines over it, both
with the same sizes. The state that it leaves and its object program are determined by the two. It
follows that the passes agree on the address of every statement.
-/

namespace SicAssembler

def Assembler.origin (state : Assembler) : Site := ⟨state.start, 0⟩

/-- The parts of a successful assembly: what was read, the object lines with their sizes, and the
site behind the last line. -/
structure Assembly (machine : Machine) (texts : List String) (program : ObjectProgram)
    (after : Assembler) (source : List SourceLine) (lines : List ObjectLine) (sizes : List Nat)
    (final : Site) : Prop where
  parsed : SourceLine.parseAll machine texts = .ok source
  machine_eq : after.machine = machine
  placed : Layout.ofLines source =
    .ok ⟨after.name, after.start, after.start + after.length, after.symbols⟩
  sources_eq : lines.map ObjectLine.source = SourceLine.throughEnd source
  trail : ObjectLine.Trail machine after.symbols after.origin lines sizes final
  listing_eq : after.listing = lines.map ListingLine.ofObjectLine
  short : ∀ line ∈ lines, line.bytes ≠ [] → line.address + line.bytes.length < Address.limit
  program_eq : program =
    { header := after.header
      texts := Piece.pack { start := after.start } (Piece.cut false lines)
      modifications := lines.filterMap ObjectLine.modification
      entry := after.start }

theorem ObjectProgram.ofLines_eq_ok_iff {header : Header} {lines : List ObjectLine}
    {program : ObjectProgram} :
    ofLines header lines = .ok program ↔
      program =
        { header := header
          texts := Piece.pack { start := header.start } (Piece.cut false lines)
          modifications := lines.filterMap ObjectLine.modification
          entry := header.start } ∧
        ∀ line ∈ lines, line.bytes ≠ [] → line.address + line.bytes.length < Address.limit := by
  constructor
  · intro run
    obtain ⟨pieces, cut, rfl⟩ := exists_of_bind_pure_eq_ok run
    obtain ⟨rfl, short⟩ := Piece.ofLines_eq_ok_iff.mp cut
    exact ⟨rfl, short⟩
  · rintro ⟨rfl, short⟩
    simp only [ofLines, Piece.ofLines_eq_ok_iff.mpr ⟨rfl, short⟩, bind, Except.bind]
    rfl

namespace Assembler

/-- The second pass generates a program exactly if there is a trail from the origin of the state. -/
theorem generate_eq_ok_iff {state : Assembler} {source : List SourceLine}
    {lines : List ObjectLine} {program : ObjectProgram} :
    state.generate source = .ok (lines, program) ↔
      (lines.map ObjectLine.source = SourceLine.throughEnd source ∧
        ∃ sizes final,
          ObjectLine.Trail state.machine state.symbols state.origin lines sizes final) ∧
      ObjectProgram.ofLines state.header lines = .ok program := by
  constructor
  · intro run
    obtain ⟨generated, made, afterLines⟩ := exists_of_bind_eq_ok run
    obtain ⟨collected, collectedOk, same⟩ := exists_of_bind_pure_eq_ok afterLines
    cases same
    exact ⟨ObjectLine.generateFrom_eq_ok_iff.mp made, collectedOk⟩
  · rintro ⟨trail, collected⟩
    have made : ObjectLine.generateAll state.machine state.symbols state.start source = .ok lines :=
      ObjectLine.generateFrom_eq_ok_iff.mpr trail
    simp only [generate, made, collected, bind, Except.bind]
    rfl

/-- The first pass succeeds exactly if there is a layout, which the state takes over. -/
theorem firstPass_eq_ok_iff {state next : Assembler} {source : List SourceLine} :
    state.firstPass source = (.ok (), next) ↔
      Layout.ofLines source = .ok ⟨next.name, next.start, next.start + next.length, next.symbols⟩ ∧
        next.machine = state.machine ∧ next.listing = state.listing := by
  constructor
  · intro run
    unfold firstPass at run
    split at run
    · cases run
    · next layout placed =>
      split at run
      · cases run
      · next length measured =>
        have sum := Address.sub_eq_ok_iff.mp (atLine_eq_ok_iff.mp measured)
        cases run
        refine ⟨?_, rfl, rfl⟩
        rw [placed]
        congr 1
        obtain ⟨name, start, counter, symbols⟩ := layout
        simp only at sum
        rw [← sum]
        rfl
  · rintro ⟨placed, machine, listing⟩
    have measured : Layout.length ⟨next.name, next.start, next.start + next.length, next.symbols⟩ =
        .ok next.length := Address.sub_eq_ok_iff.mpr rfl
    simp only [firstPass, placed, measured, atLine_ok]
    obtain ⟨_, _, _, _, _, _⟩ := next
    cases machine
    cases listing
    rfl

/-- An assembly succeeds exactly if it has its parts. -/
theorem assemble_eq_ok_iff {state after : Assembler} {texts : List String}
    {program : ObjectProgram} :
    state.assemble texts = (.ok program, after) ↔
      ∃ source lines sizes final,
        Assembly state.machine texts program after source lines sizes final := by
  constructor
  · intro run
    unfold assemble at run
    split at run
    · cases run
    · next source parsed =>
      unfold runPasses at run
      split at run
      · cases run
      · next next first =>
        obtain ⟨placed, machine, _⟩ := firstPass_eq_ok_iff.mp first
        unfold secondPass at run
        split at run
        · cases run
        · next lines made generated =>
          cases run
          obtain ⟨⟨sources, sizes, final, trail⟩, collected⟩ := generate_eq_ok_iff.mp generated
          obtain ⟨same, short⟩ := ObjectProgram.ofLines_eq_ok_iff.mp collected
          have machineEq : next.machine = state.machine := machine
          rw [machineEq] at trail
          exact ⟨source, lines, sizes, final, parsed, machineEq, placed, sources, trail, rfl, short,
            same⟩
  · rintro ⟨source, lines, sizes, final, assembly⟩
    have first : state.reset.firstPass source = (.ok (), { after with listing := [] }) :=
      firstPass_eq_ok_iff.mpr ⟨assembly.placed, assembly.machine_eq, rfl⟩
    have trail := assembly.trail
    rw [← assembly.machine_eq] at trail
    have generated :
        Assembler.generate { after with listing := [] } source = .ok (lines, program) :=
      generate_eq_ok_iff.mpr ⟨⟨assembly.sources_eq, sizes, final, trail⟩,
        ObjectProgram.ofLines_eq_ok_iff.mpr ⟨assembly.program_eq, assembly.short⟩⟩
    simp only [assemble, assembly.parsed, runPasses, first, secondPass, generated]
    rw [← assembly.listing_eq]

end Assembler

namespace Assembly

variable {machine : Machine} {texts : List String} {program : ObjectProgram} {after : Assembler}
  {source : List SourceLine} {lines : List ObjectLine} {sizes : List Nat} {final : Site}

theorem haveSizes (assembly : Assembly machine texts program after source lines sizes final) :
    SourceLine.HaveSizes (SourceLine.throughEnd source) sizes :=
  assembly.sources_eq ▸ assembly.trail.haveSizes

/-- The length in the header is the sum of all sizes. -/
theorem length_eq (assembly : Assembly machine texts program after source lines sizes final) :
    after.length = sizes.sum := by
  obtain ⟨others, sized, counter, _⟩ := Layout.sizes_of_ofLines assembly.placed
  obtain rfl := assembly.haveSizes.unique sized
  exact Nat.add_left_cancel counter

theorem final_address (assembly : Assembly machine texts program after source lines sizes final) :
    final.address = after.start + after.length := by
  rw [assembly.length_eq]
  exact assembly.trail.final_address

theorem admissible (assembly : Assembly machine texts program after source lines sizes final) :
    ∀ line ∈ lines, line.source.statement.Admissible machine := by
  intro line member
  apply SourceLine.admissible_throughEnd assembly.parsed
  rw [← assembly.sources_eq]
  exact List.mem_map_of_mem member

private theorem length_bytes_lt
    (assembly : Assembly machine texts program after source lines sizes final) :
    ∀ line ∈ lines, line.bytes.length < Address.limit := by
  intro line member
  by_cases empty : line.bytes = []
  · rw [empty]
    decide
  · have := assembly.short line member empty
    omega

/-- The object lines fill the program from its first address to its last. -/
theorem laid (assembly : Assembly machine texts program after source lines sizes final) :
    ObjectLine.Laid after.start lines (after.start + after.length) := by
  rw [← assembly.final_address]
  exact assembly.trail.laid assembly.admissible assembly.length_bytes_lt

/-- At each position, both passes have the same statement at the same address, and its code has the
size that the first pass counted. -/
theorem line_at (assembly : Assembly machine texts program after source lines sizes final)
    {position : Nat} {statement : SourceLine}
    (present : (SourceLine.throughEnd source)[position]? = some statement) :
    ∃ line here size next, lines[position]? = some line ∧ line.source = statement ∧
      sizes[position]? = some size ∧
      ObjectLine.Trail machine after.symbols after.origin (lines.take position)
        (sizes.take position) here ∧
      ObjectLine.Made machine after.symbols here line size next ∧
      line.address = after.start + (sizes.take position).sum := by
  rw [← assembly.sources_eq, List.getElem?_map] at present
  obtain ⟨line, atPosition, same⟩ := Option.map_eq_some_iff.mp present
  obtain ⟨here, size, next, front, sizeAt, made⟩ := assembly.trail.getElem atPosition
  refine ⟨line, here, size, next, atPosition, same, sizeAt, front, made, ?_⟩
  rw [made.address_eq, front.final_address]
  rfl

/-- A label of the program is in the table with the address of its statement. -/
theorem get?_label (assembly : Assembly machine texts program after source lines sizes final)
    {position : Nat} {statement : SourceLine} {label : String}
    (present : (SourceLine.throughEnd source)[position]? = some statement)
    (labelled : statement.statement.label = some label) :
    after.symbols.get? label = some (after.start + (sizes.take position).sum) :=
  Layout.get?_of_ofLines assembly.placed assembly.haveSizes present labelled

theorem entry_eq (assembly : Assembly machine texts program after source lines sizes final)
    {position : Nat} {line : ObjectLine} {entry : ListingLine}
    (present : lines[position]? = some line) (listed : after.listing[position]? = some entry) :
    entry = ListingLine.ofObjectLine line := by
  rw [assembly.listing_eq, List.getElem?_map, present, Option.map_some, Option.some.injEq] at listed
  exact listed.symm

/-- Every label lies inside the program or right behind it. -/
theorem label_le (assembly : Assembly machine texts program after source lines sizes final)
    {name : String} {address : Nat} (known : after.symbols.get? name = some address) :
    address ≤ after.start + after.length := by
  obtain ⟨others, _, counter, _, entries⟩ := Layout.sizes_of_ofLines assembly.placed
  rw [SymbolTable.get?_eq_some_iff] at known
  simp only at counter entries
  rw [entries, List.mem_reverse] at known
  rw [counter]
  exact SourceLine.le_of_mem_labels known

end Assembly

/-- The passes agree. The listing has an entry for each statement through the first `END`; its
address is the first address plus the sizes of the statements in front of it, which is also the
address of the statement's label; its code is as long as the first pass assumed; and all sizes
together are the length in the header. -/
theorem passes_agree_on_addresses {state after : Assembler} {texts : List String}
    {program : ObjectProgram} (assembled : state.assemble texts = (.ok program, after)) :
    ∃ (source listed : List SourceLine) (sizes : List Nat),
      SourceLine.parseAll state.machine texts = .ok source ∧
      listed =
        source.takeWhile (fun line => !line.isEnd) ++ (source.find? SourceLine.isEnd).toList ∧
      listed.map (fun line => line.statement.size) = sizes.map .ok ∧
      after.listing.length = listed.length ∧
      (∀ (position : Nat) (statement : SourceLine) (entry : ListingLine) (size : Nat),
        listed[position]? = some statement → after.listing[position]? = some entry →
        sizes[position]? = some size →
        entry.line = statement.line ∧
        entry.source = String.ofList (Text.trim statement.source.toList) ∧
        entry.address = after.start + (sizes.take position).sum ∧
        (∀ label, statement.statement.label = some label →
          after.symbols.get? label = some entry.address) ∧
        entry.object = Text.hexOfBytes entry.bytes ∧
        (entry.bytes = [] ∨ entry.bytes.length = size) ∧
        (statement.statement.operation.hasCode = true → entry.bytes ≠ [])) ∧
      sizes.sum = after.length ∧ program.header.length = after.length := by
  obtain ⟨source, lines, sizes, final, assembly⟩ := Assembler.assemble_eq_ok_iff.mp assembled
  refine ⟨source, SourceLine.throughEnd source, sizes, assembly.parsed,
    SourceLine.throughEnd_eq source, assembly.haveSizes, ?_, ?_, assembly.length_eq.symm, ?_⟩
  · rw [assembly.listing_eq, ← assembly.sources_eq, List.length_map, List.length_map]
  · intro position statement entry size present listed sized
    obtain ⟨line, here, found, next, atPosition, same, sizeAt, _, made, address⟩ :=
      assembly.line_at present
    obtain rfl : found = size := Option.some.inj (sizeAt.symm.trans sized)
    obtain rfl := assembly.entry_eq atPosition listed
    subst same
    have member := List.mem_of_getElem? atPosition
    obtain ⟨blank, filled, coded⟩ := Statement.length_of_generate (assembly.admissible line member)
      made.size_eq made.generated
    refine ⟨rfl, rfl, address, ?_, ?_, ?_, ?_⟩
    · intro label labelled
      exact (assembly.get?_label present labelled).trans (congrArg some address.symm)
    · rw [ListingLine.bytes_ofObjectLine]
      rfl
    · rw [ListingLine.bytes_ofObjectLine]
      cases reserves : line.source.statement.reserves with
      | true => exact .inl (blank reserves)
      | false =>
        refine .inr ?_
        rw [← filled reserves, Nat.mod_eq_of_lt (assembly.length_bytes_lt line member)]
    · intro hasCode
      rw [ListingLine.bytes_ofObjectLine]
      exact List.length_pos_iff.mp (coded hasCode)
  · rw [assembly.program_eq]
    rfl

theorem passes_agree_on_addresses_with_reservation :
    ∃ (program : ObjectProgram) (after : Assembler) (source : List SourceLine) (sizes : List Nat),
      Assembler.assemble { machine := .sic }
        ["P START 10", "A LDA B", "  RESW 2", "B BYTE C'EOF'", "Z END A", "  WORD 1"] =
          (.ok program, after) ∧
      SourceLine.parseAll .sic
        ["P START 10", "A LDA B", "  RESW 2", "B BYTE C'EOF'", "Z END A", "  WORD 1"] = .ok source ∧
      after.listing.length = 5 ∧ sizes.sum = 12 ∧ program.header.length = 12 := by
  have assembled : Assembler.assemble { machine := .sic }
      ["P START 10", "A LDA B", "  RESW 2", "B BYTE C'EOF'", "Z END A", "  WORD 1"] =
      (.ok ⟨⟨"P", 16, 12⟩, [⟨16, [0x00, 0x00, 0x19]⟩, ⟨25, [0x45, 0x4F, 0x46]⟩], [], 16⟩,
        { machine := .sic, name := "P", start := 16, length := 12
          symbols := ⟨[("Z", 28), ("B", 25), ("A", 16), ("P", 16)], by decide⟩
          listing :=
            [⟨1, 16, "P START 10", ""⟩, ⟨2, 16, "A LDA B", "000019"⟩, ⟨3, 19, "RESW 2", ""⟩,
              ⟨4, 25, "B BYTE C'EOF'", "454F46"⟩, ⟨5, 28, "Z END A", ""⟩] }) := by
    decide +kernel
  obtain ⟨source, _, sizes, parsed, _, _, _, _, sum, length⟩ := passes_agree_on_addresses assembled
  exact ⟨_, _, source, sizes, assembled, parsed, rfl, sum, length⟩

end SicAssembler
