import Mathlib.Data.Nat.Bitwise
import SicAssembler.Proofs.CheckedRun
import SicAssembler.Proofs.FirstPass
import SicAssembler.Proofs.Modifications
import SicAssembler.Proofs.SharedSource

/-! # SIC programs on SIC/XE

A SIC program can be assembled for SIC/XE without a change. Its data keeps its bytes; its
instructions keep their length, their code and their index bit, but hold displacements where SIC
has addresses. All sizes are the same, so both programs have the same layout and are cut into text
records at the same points. The only thing that can go wrong is a label that lies too far away for
twelve bits.
-/

namespace SicAssembler

namespace MachineCode

/-- Bytes on the same side of 128 have the same highest bit. -/
theorem and_highBit_eq {left right : Nat} (leftSmall : left < 256) (rightSmall : right < 256)
    (same : left / 128 = right / 128) :
    UInt8.ofNat left &&& 0x80 = UInt8.ofNat right &&& 0x80 := by
  have highBit (n : Nat) : (n &&& 0x80) = (n / 128 % 2) * 128 := by
    rw [show 0x80 = 2 ^ 7 from rfl, Nat.and_two_pow, Nat.toNat_testBit]
  apply UInt8.toNat_inj.mp
  rw [UInt8.toNat_and, UInt8.toNat_and, UInt8.toNat_ofNat_of_lt' leftSmall,
    UInt8.toNat_ofNat_of_lt' rightSmall]
  exact (highBit left).trans (same ▸ (highBit right).symm)

/-- Where the two low bits of a code are free, adding sets them. -/
theorem ofNat_add_three {code : UInt8} (aligned : code.toNat % 4 = 0) :
    UInt8.ofNat (code.toNat + 3) = code ||| 3 := by
  have byte := code.toNat_lt
  have split : code.toNat = 2 ^ 2 * (code.toNat / 4) := by omega
  apply UInt8.toNat_inj.mp
  rw [UInt8.toNat_ofNat_of_lt' (by unfold UInt8.size; omega), UInt8.toNat_or]
  conv_lhs => rw [split]
  conv_rhs => rw [split]
  exact Nat.two_pow_add_eq_or_of_lt (by decide) _

private theorem bytes_absolute (code : UInt8) (indexed : Bool) {address : Nat}
    (small : address < 0x8000) :
    (absolute code indexed address).bytes =
      [code, UInt8.ofNat (indexed.toNat * 128 + address / 0x100),
        UInt8.ofNat (address % 0x100)] := by
  have byte := code.toNat_lt
  have bit : indexed.toNat ≤ 1 := Bool.toNat_le indexed
  have first : (code.toNat * 0x10000 + indexed.toNat * 0x8000 + address) / 256 / 256 % 256 =
    code.toNat := by omega
  simp only [bytes, size, value, BigEndian.encode, List.nil_append, List.cons_append, first,
    UInt8.ofNat_toNat, List.cons.injEq, and_true, true_and]
  refine ⟨?_, ?_⟩ <;> congr 1 <;> omega

private theorem bytes_format3 {code : UInt8} (aligned : code.toNat % 4 = 0) (flags : Flags)
    {field : Nat} (small : field < 0x1000) :
    (format3 code flags field).bytes =
      [UInt8.ofNat (code.toNat + flags.ni), UInt8.ofNat (flags.xbpe * 16 + field / 0x100),
        UInt8.ofNat (field % 0x100)] := by
  have byte := code.toNat_lt
  have few := flags.ni_lt
  have four := flags.xbpe_lt
  simp only [bytes, size, value, BigEndian.encode, List.nil_append, List.cons_append,
    List.cons.injEq, and_true]
  refine ⟨?_, ?_, ?_⟩ <;> congr 1 <;> omega

end MachineCode

/-- The bytes of an instruction on SIC and on SIC/XE. The two low bits of the code, which SIC leaves
clear, are set; the highest bit behind the code, which asks for indexing, is the same. -/
def Instruction.Upgraded (found : Instruction) (bytes others : List UInt8) : Prop :=
  ∃ second third otherSecond otherThird : UInt8,
    bytes = [found.code, second, third] ∧
    others = [found.code ||| 3, otherSecond, otherThird] ∧
    otherSecond &&& 0x80 = second &&& 0x80

private theorem Instruction.upgraded_of_flags {found : Instruction}
    (catalogued : found ∈ Machine.sic.instructions) {flags : Flags} {indexed : Bool}
    (n : flags.n = true) (i : flags.i = true) (x : flags.x = indexed) {address field : Nat}
    (small : address < 0x8000) (fits : field < 0x1000) :
    found.Upgraded (MachineCode.absolute found.code indexed address).bytes
      (MachineCode.format3 found.code flags field).bytes := by
  have aligned := Machine.code_mod_four .sic found catalogued (Machine.format_of_mem_sic catalogued)
  have simple : flags.ni = 3 := by rw [Flags.ni, n, i]; rfl
  have index := Bool.toNat_le indexed
  have high : flags.xbpe / 8 = indexed.toNat := by
    have b := Bool.toNat_le flags.b
    have p := Bool.toNat_le flags.p
    have e := Bool.toNat_le flags.e
    rw [Flags.xbpe, x]
    omega
  have four := flags.xbpe_lt
  rw [Upgraded, MachineCode.bytes_absolute _ _ small, MachineCode.bytes_format3 aligned _ fits,
    simple, MachineCode.ofNat_add_three aligned]
  refine ⟨_, _, _, _, rfl, rfl, ?_⟩
  apply MachineCode.and_highBit_eq
  · omega
  · omega
  · omega

/-- The bytes of a statement on SIC and on SIC/XE; those of data are the same. -/
def Statement.Upgraded (statement : Statement) (bytes others : List UInt8) : Prop :=
  match statement.operation with
  | .machine found => found.Upgraded bytes others
  | .directive _ => others = bytes

theorem Statement.Upgraded.length_eq {statement : Statement} {bytes others : List UInt8}
    (upgraded : statement.Upgraded bytes others) : others.length = bytes.length := by
  unfold Upgraded at upgraded
  split at upgraded
  · obtain ⟨_, _, _, _, rfl, rfl, _⟩ := upgraded
    rfl
  · rw [upgraded]

/-- The operand of a statement names a label that twelve bits do not lead to. -/
def Statement.RefersBeyond (symbols : SymbolTable) (site : Site) (statement : Statement)
    (operand : Operand) : Prop :=
  statement.operand = some operand ∧
    ∃ target, symbols.get? operand.key = some target ∧
      ¬Displacement.InReach target (site.address + 3) site.base

namespace Encode

variable {symbols : SymbolTable} {site : Site} {found : Instruction} {statement : Statement}
  {code : MachineCode}

private theorem flags_of_simple {operand : Operand} (simple : operand.mode = .simple) :
    Flags.ofOperand (some operand) = { n := true, i := true, x := operand.isIndexed } := by
  simp [Flags.ofOperand, simple]

/-- A displacement does not touch the flags of the operand. -/
theorem flags_withDisplacement (flags : Flags) (displacement : Displacement) :
    (withDisplacement flags displacement).n = flags.n ∧
      (withDisplacement flags displacement).i = flags.i ∧
      (withDisplacement flags displacement).x = flags.x := by
  unfold withDisplacement
  split
  · exact ⟨rfl, rfl, rfl⟩
  · exact ⟨rfl, rfl, rfl⟩

/-- What SIC encodes with an address, format 3 encodes with a displacement if there is one. -/
theorem format3_of_absolute (catalogued : found ∈ Machine.sic.instructions)
    (room : site.address + 3 < Address.limit)
    (made : absolute symbols site found statement = .ok code) :
    (∃ other, format3 symbols site found statement = .ok other ∧
      found.Upgraded code.bytes other.bytes) ∨
    (∃ operand, statement.RefersBeyond symbols site operand ∧
      format3 symbols site found statement = .error (.outOfReach operand.text site.address)) := by
  rcases absolute_eq_ok_cases made with
    ⟨absent, rfl⟩ | ⟨operand, address, present, simple, known, small, rfl⟩
  · refine .inl ⟨_, format3_of_none absent, ?_⟩
    apply Instruction.upgraded_of_flags catalogued
    · rfl
    · rfl
    · rfl
    · decide
    · decide
  · rw [format3_of_label present (target_of_label known) room, flags_of_simple simple]
    cases selected : Displacement.select? address (site.address + 3) site.base with
    | none =>
      exact .inr ⟨operand, ⟨present, address, known,
        Displacement.select?_eq_none_iff.mp selected⟩, rfl⟩
    | some displacement =>
      obtain ⟨n, i, x⟩ := flags_withDisplacement
        { n := true, i := true, x := operand.isIndexed } displacement
      refine .inl ⟨_, rfl, ?_⟩
      exact Instruction.upgraded_of_flags catalogued n i x small displacement.field_lt

end Encode

namespace Statement

variable {symbols : SymbolTable} {site : Site} {statement : Statement} {size : Nat}
  {made : Generated}

/-- Directives generate the same on both machines. -/
theorem generate_of_directive {kind : Directive}
    (isDirective : statement.operation = .directive kind)
    (machine other : Machine) :
    statement.generate machine symbols site = statement.generate other symbols site := by
  cases kind <;> simp only [generate, isDirective]

/-- SIC has no `BASE`. -/
theorem base_of_generate_sic (admissible : statement.Admissible .sic)
    (generated : statement.generate .sic symbols site = .ok made) : made.base = site.base := by
  have absent : .directive .base ∉ Machine.sic.operations := by decide +kernel
  have other : statement.operation ≠ .directive .base := by
    intro same
    exact absent (same ▸ admissible.operation_mem)
  exact base_of_generate_of_ne other generated

/-- A statement that SIC generates is generated for SIC/XE too, or it refers to a label that is out
of reach. -/
theorem generate_xe_of_sic (admissible : statement.Admissible .sic)
    (sized : statement.size = .ok size) (room : site.address + size < Address.limit)
    (generated : statement.generate .sic symbols site = .ok made) :
    (∃ bytes, statement.generate .xe symbols site = .ok { made with bytes := bytes } ∧
      statement.Upgraded made.bytes bytes) ∨
    (∃ operand, statement.RefersBeyond symbols site operand ∧
      statement.generate .xe symbols site = .error (.outOfReach operand.text site.address)) := by
  cases operation : statement.operation with
  | directive kind =>
    refine .inl ⟨made.bytes, ?_, ?_⟩
    · rw [generate_of_directive operation .xe .sic, generated]
    · rw [Upgraded, operation]
  | machine found =>
    have catalogued := Machine.mem_instructions (operation ▸ admissible.operation_mem)
    have format := Machine.format_of_mem_sic catalogued
    have plain := plain_of_admissible_sic admissible
    have three : size = 3 := by
      simp only [Statement.size, operation, plain, format] at sized
      exact (Except.ok.inj sized).symm
    simp only [generate, operation] at generated
    obtain ⟨encoded, coded, rfl⟩ := exists_of_bind_pure_eq_ok generated
    obtain ⟨code, absolute, rfl⟩ := exists_of_bind_pure_eq_ok coded
    simp only [generate, operation, Encode.instruction_of_plain format plain, Upgraded]
    rcases Encode.format3_of_absolute catalogued (three ▸ room) absolute with
      ⟨other, made, upgraded⟩ | ⟨operand, beyond, failed⟩
    · refine .inl ⟨other.bytes, ?_, upgraded⟩
      rw [made]
      rfl
    · refine .inr ⟨operand, beyond, ?_⟩
      rw [failed]
      rfl

end Statement

namespace ObjectLine

/-- A line assembled for SIC, and the same line for SIC/XE. -/
structure Upgraded (line other : ObjectLine) : Prop where
  source_eq : other.source = line.source
  address_eq : other.address = line.address
  code : line.source.statement.Upgraded line.bytes other.bytes
  modification_eq : other.modification = line.modification

theorem Upgraded.inPlace {line other : ObjectLine} (upgraded : line.Upgraded other) :
    line.InPlace 0 other where
  address_eq := upgraded.address_eq
  length_eq := upgraded.code.length_eq
  reserves_eq := by rw [upgraded.source_eq]

variable {symbols : SymbolTable} {site next final : Site} {line : ObjectLine}
  {lines : List ObjectLine} {size : Nat} {sizes : List Nat}

/-- One line of a trail, assembled for SIC/XE. -/
theorem Made.upgraded (made : Made .sic symbols site line size next)
    (admissible : line.source.statement.Admissible .sic) :
    (∃ other, Made .xe symbols site other size next ∧ line.Upgraded other) ∨
    (∃ operand, line.source.statement.RefersBeyond symbols site operand ∧
      generate .xe symbols site line.source = .error (.outOfReach operand.text line.address)) := by
  have room : site.address + size < Address.limit := made.next_eq ▸ made.bounded
  rcases Statement.generate_xe_of_sic admissible made.size_eq room made.generated with
    ⟨bytes, generated, upgraded⟩ | ⟨operand, beyond, failed⟩
  · refine .inl ⟨{ line with bytes := bytes }, ?_, rfl, rfl, upgraded, rfl⟩
    exact ⟨made.size_eq, made.address_eq, generated, made.next_eq, made.bounded⟩
  · refine .inr ⟨operand, beyond, ?_⟩
    simp only [generate, made.size_eq, failed, bind, Except.bind, made.address_eq]

/-- A trail of SIC is one of SIC/XE, line by line, up to the first reference that is out of
reach. -/
theorem Trail.upgraded (trail : Trail .sic symbols site lines sizes final)
    (admissible : ∀ line ∈ lines, line.source.statement.Admissible .sic) :
    (∃ others, Trail .xe symbols site others sizes final ∧ List.Forall₂ Upgraded lines others) ∨
    (∃ line ∈ lines, ∃ operand,
      line.source.statement.RefersBeyond symbols ⟨line.address, site.base⟩ operand ∧
      generateFrom .xe symbols site (lines.map ObjectLine.source) =
        .error (.source line.source.line (.outOfReach operand.text line.address))) := by
  induction trail with
  | nil site => exact .inl ⟨[], .nil site, .nil⟩
  | @cons site next final line rest size sizes made tail ih =>
    obtain ⟨admissibleHere, admissibleRest⟩ := List.forall_mem_cons.mp admissible
    have base : next.base = site.base :=
      Statement.base_of_generate_sic admissibleHere made.generated
    simp only [List.map_cons, generateFrom]
    rcases made.upgraded admissibleHere with
      ⟨other, otherMade, upgraded⟩ | ⟨operand, beyond, failed⟩
    · have generated : generate .xe symbols site line.source = .ok (other, next) :=
        generate_eq_ok_iff.mpr ⟨upgraded.source_eq, size, otherMade⟩
      rcases ih admissibleRest with
        ⟨others, otherTail, upgradedRest⟩ | ⟨found, member, operand, beyond, failed⟩
      · exact .inl ⟨other :: others, .cons otherMade otherTail, .cons upgraded upgradedRest⟩
      · refine .inr ⟨found, List.mem_cons_of_mem line member, operand, base ▸ beyond, ?_⟩
        simp only [generated, failed]
    · refine .inr ⟨line, List.mem_cons_self, operand, ?_, ?_⟩
      · rw [made.address_eq]
        exact beyond
      · simp only [failed]

private theorem map_source_upgraded {others : List ObjectLine}
    (upgraded : List.Forall₂ Upgraded lines others) :
    others.map ObjectLine.source = lines.map ObjectLine.source := by
  induction upgraded with
  | nil => rfl
  | cons same _ ih => rw [List.map_cons, List.map_cons, same.source_eq, ih]

private theorem filterMap_modification_upgraded {others : List ObjectLine}
    (upgraded : List.Forall₂ Upgraded lines others) :
    others.filterMap ObjectLine.modification = lines.filterMap ObjectLine.modification := by
  induction upgraded with
  | nil => rfl
  | cons same _ ih => simp only [List.filterMap_cons, same.modification_eq, ih]

/-- Lines of the same lengths end at the same addresses. -/
theorem short_upgraded {others : List ObjectLine} (upgraded : List.Forall₂ Upgraded lines others)
    (short : ∀ line ∈ lines, line.bytes ≠ [] →
      line.address + line.bytes.length < Address.limit) :
    ∀ other ∈ others, other.bytes ≠ [] → other.address + other.bytes.length < Address.limit := by
  induction upgraded with
  | nil => simp
  | @cons line other _ _ same _ ih =>
    obtain ⟨shortHere, shortRest⟩ := List.forall_mem_cons.mp short
    refine List.forall_mem_cons.mpr ⟨fun present => ?_, ih shortRest⟩
    have length := same.code.length_eq
    rw [same.address_eq, length]
    apply shortHere
    rw [← List.length_pos_iff] at present ⊢
    omega

end ObjectLine

namespace Assembly

variable {texts : List String} {program : ObjectProgram} {after : Assembler}
  {source : List SourceLine} {lines : List ObjectLine} {sizes : List Nat} {final : Site}

/-- An assembly for SIC is also one for SIC/XE, with other code of the same length, unless code
generation for SIC/XE stops at a reference that is out of reach. -/
theorem upgraded (assembly : Assembly .sic texts program after source lines sizes final)
    (parsed : SourceLine.parseAll .xe texts = .ok source) :
    (∃ others,
      Assembly .xe texts
        { program with texts := Piece.pack { start := after.start } (Piece.cut false others) }
        { after with machine := .xe, listing := others.map ListingLine.ofObjectLine }
        source others sizes final ∧
      List.Forall₂ ObjectLine.Upgraded lines others) ∨
    (∃ line ∈ lines, ∃ operand,
      line.source.statement.RefersBeyond after.symbols ⟨line.address, 0⟩ operand ∧
      ObjectLine.generateFrom .xe after.symbols after.origin (SourceLine.throughEnd source) =
        .error (.source line.source.line (.outOfReach operand.text line.address))) := by
  rcases assembly.trail.upgraded assembly.admissible with
    ⟨others, trail, upgraded⟩ | ⟨line, member, operand, beyond, failed⟩
  · refine .inl ⟨others, ?_, upgraded⟩
    refine ⟨parsed, rfl, assembly.placed, ?_, trail, rfl, ?_, ?_⟩
    · rw [ObjectLine.map_source_upgraded upgraded, assembly.sources_eq]
    · exact ObjectLine.short_upgraded upgraded assembly.short
    · rw [assembly.program_eq, ObjectLine.filterMap_modification_upgraded upgraded]
      rfl
  · refine .inr ⟨line, member, operand, beyond, ?_⟩
    rw [← assembly.sources_eq]
    exact failed

/-- Whatever the bytes are, the text records begin and end at the same addresses. -/
theorem texts_upgraded {others : List ObjectLine}
    (assembly : Assembly .sic texts program after source lines sizes final)
    (upgraded : List.Forall₂ ObjectLine.Upgraded lines others) :
    (Piece.pack { start := after.start } (Piece.cut false others)).map
        (fun text => (text.start, text.bytes.length)) =
      program.texts.map fun text => (text.start, text.bytes.length) := by
  have inPlace := upgraded.imp fun _ _ => ObjectLine.Upgraded.inPlace
  rw [assembly.program_eq]
  exact TextRecord.map_moved
    (Piece.forall₂_pack ⟨rfl, rfl⟩ (Piece.forall₂_cut_of_inPlace inPlace false))

end Assembly

/-- A statement in the listing for SIC, and its entry in the listing for SIC/XE. -/
structure ListingLine.Upgraded (listed : SourceLine × ListingLine) (other : ListingLine) :
    Prop where
  line_eq : other.line = listed.2.line
  address_eq : other.address = listed.2.address
  source_eq : other.source = listed.2.source
  code : listed.1.statement.Upgraded listed.2.bytes other.bytes

private theorem ListingLine.upgraded_ofObjectLine {line other : ObjectLine}
    (upgraded : line.Upgraded other) :
    Upgraded (line.source, ofObjectLine line) (ofObjectLine other) where
  line_eq := by rw [ofObjectLine, ofObjectLine, upgraded.source_eq]
  address_eq := upgraded.address_eq
  source_eq := by rw [ofObjectLine, ofObjectLine, upgraded.source_eq]
  code := by
    rw [bytes_ofObjectLine, bytes_ofObjectLine]
    exact upgraded.code

/-- The first pass gives the same on both machines. -/
theorem Assembler.firstPass_agree (state other : Assembler) (lines : List SourceLine) :
    (other.firstPass lines).1 = (state.firstPass lines).1 ∧
      (other.firstPass lines).2.name = (state.firstPass lines).2.name ∧
      (other.firstPass lines).2.start = (state.firstPass lines).2.start ∧
      (other.firstPass lines).2.symbols = (state.firstPass lines).2.symbols ∧
      ((state.firstPass lines).1 = .ok () →
        (other.firstPass lines).2.length = (state.firstPass lines).2.length) := by
  rw [firstPass_eq, firstPass_eq]
  cases Layout.ofLines lines with
  | error halt => exact ⟨rfl, rfl, rfl, rfl, nofun⟩
  | ok layout => exact ⟨rfl, rfl, rfl, rfl, fun _ => rfl⟩

private theorem ObjectProgram.records_of_fixed {program : ObjectProgram}
    (fixed : program.modifications = []) :
    program.records = program.header.render ::
      (program.texts.map TextRecord.render ++ [renderEnd program.entry]) := by
  rw [records, fixed, List.map_nil, List.append_nil, List.cons_append]

/-- SIC source is upward compatible. Where no label is a mnemonic that only SIC/XE has, SIC/XE reads
the statements that SIC reads, and the first pass gives the same. If the assembly for SIC succeeds,
the one for SIC/XE fails only at a label that is out of reach. If it succeeds, both programs have
the same header and the same end, no modifications, and text records of the same places and lengths,
filled by the listings; data has the same bytes, and an instruction has its code with the two low
bits set and the same index bit. -/
theorem sic_source_is_upward_compatible {sic xe : Assembler} (isSic : sic.machine = .sic)
    (isXe : xe.machine = .xe) {texts : List String} {source : List SourceLine}
    (parsed : SourceLine.parseAll .sic texts = .ok source)
    (old : ∀ line ∈ source, ∀ label ∈ line.statement.label, Machine.isXeOnly label = false) :
    SourceLine.parseAll .xe texts = .ok source ∧
    ((xe.firstPass source).1 = (sic.firstPass source).1 ∧
      (xe.firstPass source).2.name = (sic.firstPass source).2.name ∧
      (xe.firstPass source).2.start = (sic.firstPass source).2.start ∧
      (xe.firstPass source).2.symbols = (sic.firstPass source).2.symbols ∧
      ((sic.firstPass source).1 = .ok () →
        (xe.firstPass source).2.length = (sic.firstPass source).2.length)) ∧
    ∀ program after, sic.assemble texts = (.ok program, after) →
      (∃ line ∈ source, ∃ entry ∈ after.listing, ∃ operand target,
        entry.line = line.line ∧ line.statement.operand = some operand ∧
        after.symbols.get? operand.key = some target ∧
        ¬Displacement.InReach target (entry.address + 3) 0 ∧
        (xe.assemble texts).1 =
          .error (.source line.line (.outOfReach operand.text entry.address))) ∨
      (∃ other otherAfter, xe.assemble texts = (.ok other, otherAfter) ∧
        program.records = program.header.render ::
          (program.texts.map TextRecord.render ++ [renderEnd program.entry]) ∧
        other.records = program.header.render ::
          (other.texts.map TextRecord.render ++ [renderEnd program.entry]) ∧
        other.texts.map (fun text => (text.start, text.bytes.length)) =
          program.texts.map (fun text => (text.start, text.bytes.length)) ∧
        program.cells = after.listing.flatMap ListingLine.cells ∧
        other.cells = otherAfter.listing.flatMap ListingLine.cells ∧
        after.listing.map ListingLine.line =
          (SourceLine.throughEnd source).map SourceLine.line ∧
        List.Forall₂ ListingLine.Upgraded ((SourceLine.throughEnd source).zip after.listing)
          otherAfter.listing) := by
  have parsedXe := SourceLine.parseFrom_xe_of_sic parsed old
  refine ⟨parsedXe, Assembler.firstPass_agree sic xe source, fun program after assembled => ?_⟩
  obtain ⟨read, lines, sizes, final, assembly⟩ := Assembler.assemble_eq_ok_iff.mp assembled
  rw [isSic] at assembly
  cases parsed.symm.trans assembly.parsed
  rcases assembly.upgraded parsedXe with
    ⟨others, otherAssembly, upgraded⟩ |
      ⟨line, member, operand, ⟨present, target, known, far⟩, failed⟩
  · have fixed := assembly.modifications_sic
    have assembledXe := Assembler.assemble_eq_ok_iff.mpr ⟨_, _, _, _, isXe ▸ otherAssembly⟩
    refine .inr ⟨_, _, assembledXe, ObjectProgram.records_of_fixed fixed,
      ObjectProgram.records_of_fixed fixed, assembly.texts_upgraded upgraded, ?_, ?_, ?_, ?_⟩
    · rw [assembly.cells_eq, assembly.listing_cells]
    · rw [otherAssembly.cells_eq, otherAssembly.listing_cells]
    · rw [assembly.listing_eq, ← assembly.sources_eq, List.map_map, List.map_map]
      rfl
    · rw [assembly.listing_eq, ← assembly.sources_eq, List.zip_map', List.forall₂_map_left_iff,
        List.forall₂_map_right_iff]
      exact upgraded.imp fun _ _ => ListingLine.upgraded_ofObjectLine
  · have listed : line.source ∈ source := by
      apply (SourceLine.isPrefix_throughEnd source).subset
      rw [← assembly.sources_eq]
      exact List.mem_map_of_mem member
    have entry : ListingLine.ofObjectLine line ∈ after.listing := by
      rw [assembly.listing_eq]
      exact List.mem_map_of_mem member
    refine .inl ⟨line.source, listed, _, entry, operand, target, rfl, present, known, far, ?_⟩
    have measured : Layout.length
        ⟨after.name, after.start, after.start + after.length, after.symbols⟩ = .ok after.length :=
      Address.sub_eq_ok_iff.mpr rfl
    rw [← isXe] at parsedXe failed
    rw [Assembler.assemble_of_layout parsedXe assembly.placed measured]
    exact congrArg (· >>= _) failed

theorem sic_source_is_upward_compatible_with_index :
    ∃ (source : List SourceLine) (program other : ObjectProgram) (after otherAfter : Assembler),
      SourceLine.parseAll .sic ["A LDCH T,X", "  BYTE C'AB'", "  RESB 2", "T RSUB"] = .ok source ∧
      SourceLine.parseAll .xe ["A LDCH T,X", "  BYTE C'AB'", "  RESB 2", "T RSUB"] = .ok source ∧
      Assembler.assemble { machine := .sic } ["A LDCH T,X", "  BYTE C'AB'", "  RESB 2", "T RSUB"] =
        (.ok program, after) ∧
      Assembler.assemble { machine := .xe } ["A LDCH T,X", "  BYTE C'AB'", "  RESB 2", "T RSUB"] =
        (.ok other, otherAfter) ∧
      program.texts = [⟨0, [0x50, 0x80, 0x07, 0x41, 0x42]⟩, ⟨7, [0x4C, 0x00, 0x00]⟩] ∧
      other.texts = [⟨0, [0x53, 0xA0, 0x04, 0x41, 0x42]⟩, ⟨7, [0x4F, 0x00, 0x00]⟩] ∧
      List.Forall₂ ListingLine.Upgraded ((SourceLine.throughEnd source).zip after.listing)
        otherAfter.listing := by
  have parsed : SourceLine.parseAll .sic ["A LDCH T,X", "  BYTE C'AB'", "  RESB 2", "T RSUB"] =
      .ok [⟨1, "A LDCH T,X", ⟨some "A", .machine ⟨"LDCH", 0x50, .three⟩, some ⟨"T,X"⟩, false⟩⟩,
        ⟨2, "  BYTE C'AB'", ⟨none, .directive .byte, some ⟨"C'AB'"⟩, false⟩⟩,
        ⟨3, "  RESB 2", ⟨none, .directive .reserveBytes, some ⟨"2"⟩, false⟩⟩,
        ⟨4, "T RSUB", ⟨some "T", .machine ⟨"RSUB", 0x4C, .three⟩, none, false⟩⟩] := by
    decide +kernel
  have assembled : Assembler.assemble { machine := .sic }
      ["A LDCH T,X", "  BYTE C'AB'", "  RESB 2", "T RSUB"] =
      (.ok ⟨⟨"", 0, 10⟩,
        [⟨0, [0x50, 0x80, 0x07, 0x41, 0x42]⟩, ⟨7, [0x4C, 0x00, 0x00]⟩], [], 0⟩,
        { machine := .sic, length := 10, symbols := ⟨[("T", 7), ("A", 0)], by decide⟩
          listing := [⟨1, 0, "A LDCH T,X", "508007"⟩, ⟨2, 3, "BYTE C'AB'", "4142"⟩,
            ⟨3, 5, "RESB 2", ""⟩, ⟨4, 7, "T RSUB", "4C0000"⟩] }) := by
    decide +kernel
  have texts : (assemble .xe ["A LDCH T,X", "  BYTE C'AB'", "  RESB 2", "T RSUB"]).map
      ObjectProgram.texts =
      .ok [⟨0, [0x53, 0xA0, 0x04, 0x41, 0x42]⟩, ⟨7, [0x4F, 0x00, 0x00]⟩] := by
    decide +kernel
  obtain ⟨parsedXe, _, outcome⟩ := sic_source_is_upward_compatible
    (show ({ machine := .sic } : Assembler).machine = .sic from rfl)
    (show ({ machine := .xe } : Assembler).machine = .xe from rfl) parsed (by decide +kernel)
  rcases outcome _ _ assembled with
    ⟨_, _, _, _, _, _, _, _, _, _, failed⟩ |
      ⟨other, otherAfter, assembledXe, _, _, _, _, _, _, upgraded⟩
  · rw [assemble, failed] at texts
    contradiction
  · rw [assemble, assembledXe] at texts
    exact ⟨_, _, other, _, otherAfter, parsed, parsedXe, assembled, assembledXe, rfl,
      Except.ok.inj texts, upgraded⟩

end SicAssembler
