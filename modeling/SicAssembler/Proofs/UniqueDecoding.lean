import SicAssembler.Proofs.References

/-! # Machine code is uniquely decodable

The encoders put the operand of a statement into the fields of its format. `Describes` says what
these fields hold, without the encoders. From the bytes of an encoded instruction the decoder gets
back the instruction and all its fields, whatever bytes stand behind it.
-/

namespace SicAssembler

namespace Encode

/-- The register that a part of an operand names has the given code. -/
def NamesRegister (text : String) (code : Nat) : Prop :=
  ∃ register : Register, register.name = text ∧ register.code = code

/-- What the first part of a format 2 operand stands for: the number of `SVC`, or a register. -/
def FirstPart (found : Instruction) (text : String) (nibble : Nat) : Prop :=
  if found.mnemonic = "SVC" then Numeral.readDecimal text = .ok (nibble : Int) ∧ nibble ≤ 15
  else NamesRegister text nibble

/-- What the other parts of a format 2 operand stand for: nothing is 0, and one part is the count of
a shift, which is one more than the nibble, or a register. -/
def SecondPart (found : Instruction) : List String → Nat → Prop
  | [], nibble => nibble = 0
  | [text], nibble =>
    if found.mnemonic = "SHIFTL" ∨ found.mnemonic = "SHIFTR" then
      Numeral.readDecimal text = .ok (nibble + 1 : Int) ∧ nibble + 1 ≤ 16
    else NamesRegister text nibble
  | _, _ => False

/-- Machine code that says what a statement with an instruction says. -/
inductive Describes (symbols : SymbolTable) (site : Site) (found : Instruction)
    (statement : Statement) : Machine → MachineCode → Prop
  | format1 : found.format = .one → statement.operand = none →
      Describes symbols site found statement .xe (.format1 found.code)
  | format2 {operand : Operand} {first : String} {others : List String} {high low : Nat} :
      found.format = .two → statement.operand = some operand → operand.parts = (first, others) →
      FirstPart found first high → SecondPart found others low →
      Describes symbols site found statement .xe (.format2 found.code high low)
  | format3 {flags : Flags} {field : Nat} :
      found.format = .three → statement.extended = false →
      Reference symbols site statement flags field → field < 0x1000 →
      Describes symbols site found statement .xe (.format3 found.code flags field)
  | format4 {flags : Flags} {field : Nat} :
      found.format = .three → statement.extended = true →
      Reference symbols site statement flags field → field < 0x100000 →
      Describes symbols site found statement .xe (.format4 found.code flags field)
  /-- Without an operand the address of a SIC instruction is 0. -/
  | bare : statement.operand = none →
      Describes symbols site found statement .sic (.absolute found.code false 0)
  | absolute {operand : Operand} {indexed : Bool} {address : Nat} :
      statement.operand = some operand →
      (indexed = true ↔ ∃ front, operand.text.toList = front ++ [',', 'X']) →
      symbols.get? operand.key = some address → address ≤ 0x7FFF →
      Describes symbols site found statement .sic (.absolute found.code indexed address)

variable {machine : Machine} {symbols : SymbolTable} {site : Site} {found : Instruction}
  {statement : Statement} {nibble : Nat}

private theorem NamesRegister.lt {text : String} (named : NamesRegister text nibble) :
    nibble < 16 := by
  obtain ⟨register, _, rfl⟩ := named
  exact register.code_lt

private theorem FirstPart.lt {text : String} (part : FirstPart found text nibble) :
    nibble < 16 := by
  unfold FirstPart at part
  split at part
  · omega
  · exact part.lt

private theorem SecondPart.lt {others : List String} (part : SecondPart found others nibble) :
    nibble < 16 := by
  unfold SecondPart at part
  split at part
  · omega
  · split at part
    · omega
    · exact part.lt
  · contradiction

private theorem firstPart_of_firstNibble {text : String}
    (read : firstNibble found text = .ok nibble) :
    FirstPart found text nibble := by
  rw [firstNibble] at read
  rw [FirstPart]
  split at read
  · next isService =>
    obtain ⟨_, atMost, numeral⟩ := bounds_of_smallNumber read
    rw [if_pos isService]
    exact ⟨numeral, atMost⟩
  · next notService =>
    rw [if_neg notService]
    exact registerCode_eq_ok_iff.mp read

private theorem secondPart_of_secondNibble {text : String}
    (read : secondNibble found text = .ok nibble) :
    SecondPart found [text] nibble := by
  rw [secondNibble] at read
  rw [SecondPart]
  split at read
  · next isShift =>
    obtain ⟨count, counted, less⟩ := exists_of_bind_eq_ok read
    obtain ⟨_, atMost, numeral⟩ := bounds_of_smallNumber counted
    have total : 1 + nibble = count := Address.sub_eq_ok_iff.mp less
    have same : (count : Int) = nibble + 1 := by omega
    rw [if_pos isShift, numeral, same]
    exact ⟨rfl, by omega⟩
  · next notShift =>
    rw [if_neg notShift]
    exact registerCode_eq_ok_iff.mp read

/-- The encoders describe the statement. -/
theorem describes_of_instruction {encoded : Encoded}
    (made : instruction machine symbols site found statement = .ok encoded) :
    Describes symbols site found statement machine encoded.code := by
  rcases instruction_eq_ok_cases made with
    ⟨rfl, code, coded, rfl⟩ | ⟨rfl, format, code, coded, rfl⟩ | ⟨rfl, format, code, coded, rfl⟩ |
      ⟨rfl, format, extended, coded⟩ | ⟨rfl, format, plain, code, coded, rfl⟩
  · rcases absolute_eq_ok_cases coded with
      ⟨absent, rfl⟩ | ⟨operand, address, present, _, known, small, rfl⟩
    · exact .bare absent
    · exact .absolute present Operand.isIndexed_iff known (Nat.le_of_lt_succ small)
  · obtain ⟨absent, rfl⟩ := format1_eq_ok_iff.mp coded
    exact .format1 format absent
  · obtain ⟨operand, first, high, present, readFirst, last⟩ := format2_eq_ok_cases coded
    have firstPart := firstPart_of_firstNibble readFirst
    rcases last with ⟨parts, rfl⟩ | ⟨second, low, parts, readSecond, rfl⟩
    · exact .format2 format present parts firstPart rfl
    · exact .format2 format present parts firstPart (secondPart_of_secondNibble readSecond)
  · obtain ⟨flags, field, reference, small, code⟩ := Reference.of_format4 extended coded
    rw [code]
    exact .format4 format extended reference small
  · obtain ⟨flags, field, reference, small, rfl⟩ := Reference.of_format3 plain coded
    exact .format3 format plain reference small

variable {code : MachineCode}

private theorem Describes.code_eq
    (describes : Describes symbols site found statement machine code) :
    code.code = found.code := by
  cases describes <;> rfl

private theorem Describes.size_eq_of_sic
    (describes : Describes symbols site found statement .sic code) :
    code.size = 3 := by
  cases describes <;> rfl

/-- The decoder gets back whatever describes a statement. -/
theorem Describes.decode? (describes : Describes symbols site found statement machine code)
    (catalogued : found ∈ machine.instructions) (rest : List UInt8) :
    MachineCode.decode? machine (code.bytes ++ rest) = some (code, rest) := by
  cases describes with
  | format1 format _ => exact MachineCode.decode?_format1 catalogued format rest
  | format2 format _ _ first second =>
    exact MachineCode.decode?_format2 catalogued format first.lt second.lt rest
  | format3 _ plain reference small =>
    apply MachineCode.decode?_format3 catalogued reference.shown.ni_ne_zero _ small
    exact reference.extended_eq.trans plain
  | format4 _ extended reference small =>
    apply MachineCode.decode?_format4 catalogued reference.shown.ni_ne_zero _ small
    exact reference.extended_eq.trans extended
  | bare _ => exact MachineCode.decode?_absolute catalogued false (by decide) rest
  | absolute _ _ _ small =>
    exact MachineCode.decode?_absolute catalogued _ (Nat.lt_succ_of_le small) rest

end Encode

/-- Machine code is uniquely decodable. Where the instruction on a line can be encoded, the decoder
of the machine takes exactly its bytes off the front of any byte string that begins with them. It
gets back the code that the encoder made, from which the catalog tells the mnemonic. The code has as
many bytes as the format of the instruction, or four exactly if the line is extended, and always
three on SIC. Its fields say what the operand of the line says. -/
theorem machine_code_is_uniquely_decodable {machine : Machine} {text : String}
    {statement : Statement} {found : Instruction} {symbols : SymbolTable} {site : Site}
    {encoded : Encoded} (parsed : Statement.parse machine text = .ok (some statement))
    (isMachine : statement.operation = .machine found)
    (made : Encode.instruction machine symbols site found statement = .ok encoded)
    (rest : List UInt8) :
    MachineCode.decode? machine (encoded.code.bytes ++ rest) = some (encoded.code, rest) ∧
    encoded.code.mnemonic? machine = some found.mnemonic ∧
    encoded.code.bytes.length = (if statement.extended then 4 else found.format.size) ∧
    (encoded.code.bytes.length = 4 ↔ statement.extended = true) ∧
    (machine = .sic → encoded.code.bytes.length = 3) ∧
    Encode.Describes symbols site found statement machine encoded.code := by
  have admissible := Statement.admissible_of_parse parsed
  have catalogued := Machine.mem_instructions (isMachine ▸ admissible.operation_mem)
  have describes := Encode.describes_of_instruction made
  have size := Encode.size_of_instruction admissible isMachine made
  rw [MachineCode.length_bytes]
  refine ⟨describes.decode? catalogued rest, ?_, size, ?_, ?_, describes⟩
  · rw [MachineCode.mnemonic?, describes.code_eq, MachineCode.instruction?_code catalogued]
    rfl
  · rw [size]
    cases statement.extended with
    | true => simp
    | false => cases found.format <;> decide
  · rintro rfl
    exact describes.size_eq_of_sic

/-- A shift by sixteen is read back in front of a byte that begins no instruction. -/
theorem machine_code_is_uniquely_decodable_for_shift :
    ∃ statement found encoded,
      Statement.parse .xe "LOOP SHIFTL S,16" = .ok (some statement) ∧
      statement.operation = .machine found ∧
      Encode.instruction .xe ∅ ⟨0x1000, 0⟩ found statement = .ok encoded ∧
      encoded.code = .format2 0xA4 4 15 ∧
      MachineCode.decode? .xe (encoded.code.bytes ++ [0xFF]) = some (encoded.code, [0xFF]) ∧
      encoded.code.mnemonic? .xe = some "SHIFTL" ∧
      Encode.Describes ∅ ⟨0x1000, 0⟩ found statement .xe encoded.code := by
  have parsed : Statement.parse .xe "LOOP SHIFTL S,16" =
      .ok (some ⟨some "LOOP", .machine ⟨"SHIFTL", 0xA4, .two⟩, some ⟨"S,16"⟩, false⟩) := by
    decide +kernel
  have made : Encode.instruction .xe ∅ ⟨0x1000, 0⟩ ⟨"SHIFTL", 0xA4, .two⟩
      ⟨some "LOOP", .machine ⟨"SHIFTL", 0xA4, .two⟩, some ⟨"S,16"⟩, false⟩ =
      .ok ⟨.format2 0xA4 4 15, none⟩ := by
    decide +kernel
  obtain ⟨decoded, mnemonic, _, _, _, describes⟩ :=
    machine_code_is_uniquely_decodable parsed rfl made [0xFF]
  exact ⟨_, _, _, parsed, rfl, made, rfl, decoded, mnemonic, describes⟩

end SicAssembler
