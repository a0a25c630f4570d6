import SicAssembler.ObjectLine
import SicAssembler.Proofs.ByteLiteral
import SicAssembler.Proofs.Encoding
import SicAssembler.Proofs.Placement

/-! # What the second pass generates

Code is generated along a trail of sites, each behind the statement in front of it. A statement
that reserves memory has no code; every other one has exactly as many bytes as the first pass left
room for, counted in 32 bits. The addresses of a trail are therefore the same sums of sizes as those
of a layout.
-/

namespace SicAssembler

/-- Whether an operation stands for bytes in memory. -/
def Operation.hasCode : Operation → Bool
  | .machine _ => true
  | .directive .word => true
  | .directive .byte => true
  | .directive _ => false

namespace Encode

private theorem size_of_format1 {instruction : Instruction} {statement : Statement}
    {code : MachineCode} (encoded : format1 instruction statement = .ok code) : code.size = 1 := by
  obtain ⟨_, rfl⟩ := format1_eq_ok_iff.mp encoded
  rfl

private theorem size_of_format2 {instruction : Instruction} {statement : Statement}
    {code : MachineCode} (encoded : format2 instruction statement = .ok code) : code.size = 2 := by
  obtain ⟨_, _, _, _, _, ⟨_, rfl⟩ | ⟨_, _, _, _, rfl⟩⟩ := format2_eq_ok_cases encoded <;> rfl

private theorem size_of_format3 {symbols : SymbolTable} {site : Site} {instruction : Instruction}
    {statement : Statement} {code : MachineCode}
    (encoded : format3 symbols site instruction statement = .ok code) : code.size = 3 := by
  rcases format3_eq_ok_cases encoded with
    ⟨_, rfl⟩ | ⟨_, _, _, _, _, rfl⟩ | ⟨_, _, _, _, _, _, _, rfl⟩ <;> rfl

private theorem size_of_format4 {symbols : SymbolTable} {site : Site} {instruction : Instruction}
    {statement : Statement} {encoded : Encoded}
    (made : format4 symbols site instruction statement = .ok encoded) : encoded.code.size = 4 := by
  rcases format4_eq_ok_cases made with ⟨_, rfl⟩ | ⟨_, _, _, _, _, rfl⟩ <;> rfl

private theorem size_of_absolute {symbols : SymbolTable} {site : Site} {instruction : Instruction}
    {statement : Statement} {code : MachineCode}
    (encoded : absolute symbols site instruction statement = .ok code) : code.size = 3 := by
  rcases absolute_eq_ok_cases encoded with ⟨_, rfl⟩ | ⟨_, _, _, _, _, _, rfl⟩ <;> rfl

/-- An encoded instruction takes the room that its statement asks for. -/
theorem size_of_instruction {machine : Machine} {symbols : SymbolTable} {site : Site}
    {found : Instruction} {statement : Statement} {encoded : Encoded}
    (admissible : statement.Admissible machine) (isMachine : statement.operation = .machine found)
    (made : instruction machine symbols site found statement = .ok encoded) :
    encoded.code.size = if statement.extended then 4 else found.format.size := by
  have plainUnlessThree : found.format ≠ .three ∨ machine = .sic → statement.extended = false := by
    intro other
    cases extended : statement.extended with
    | false => rfl
    | true =>
      obtain ⟨rfl, instruction, same, format⟩ := admissible.extended_cases extended
      obtain rfl : found = instruction := Operation.machine.inj (isMachine.symm.trans same)
      exact absurd format (by simpa using other)
  rcases instruction_eq_ok_cases made with
    ⟨rfl, code, coded, rfl⟩ | ⟨_, format, code, coded, rfl⟩ | ⟨_, format, code, coded, rfl⟩ |
      ⟨_, _, extended, coded⟩ | ⟨_, format, plain, code, coded, rfl⟩
  · have member := Machine.mem_instructions (isMachine ▸ admissible.operation_mem)
    rw [plainUnlessThree (.inr rfl), Machine.format_of_mem_sic member]
    exact size_of_absolute coded
  · rw [plainUnlessThree (.inl (by simp [format])), format]
    exact size_of_format1 coded
  · rw [plainUnlessThree (.inl (by simp [format])), format]
    exact size_of_format2 coded
  · rw [extended]
    exact size_of_format4 coded
  · rw [plain, format]
    exact size_of_format3 coded

end Encode

namespace Statement

theorem length_of_word {statement : Statement} {bytes : List UInt8}
    (encoded : Encode.word statement = .ok bytes) : bytes.length = wordSize := by
  obtain ⟨value, _, rfl⟩ := exists_of_bind_pure_eq_ok encoded
  exact BigEndian.length_encode _ _

theorem read_of_byteLiteral {statement : Statement} {literal : ByteLiteral}
    (read : statement.byteLiteral = .ok literal) :
    ∃ operand, statement.operand = some operand ∧ ByteLiteral.read operand.text = .ok literal := by
  obtain ⟨operand, required, mapped⟩ := exists_of_bind_eq_ok read
  have present := Statement.required_eq_ok_iff.mp required
  cases found : ByteLiteral.read operand.text with
  | error failure => rw [found] at mapped; contradiction
  | ok other =>
    rw [found] at mapped
    cases mapped
    exact ⟨operand, present, found⟩

private theorem size_of_byteLiteral {statement : Statement} {literal : ByteLiteral}
    (read : statement.byteLiteral = .ok literal) :
    literal.bytes.length % Address.limit = literal.size ∧ 0 < literal.bytes.length := by
  obtain ⟨operand, _, found⟩ := read_of_byteLiteral read
  exact ByteLiteral.size_of_read found

/-- The code of a statement has the size of the statement, and reserved memory has no code. -/
theorem length_of_generate {machine : Machine} {symbols : SymbolTable} {site : Site}
    {statement : Statement} {size : Nat} {made : Generated}
    (admissible : statement.Admissible machine) (sized : statement.size = .ok size)
    (generated : statement.generate machine symbols site = .ok made) :
    (statement.reserves = true → made.bytes = []) ∧
      (statement.reserves = false → made.bytes.length % Address.limit = size) ∧
      (statement.operation.hasCode = true → 0 < made.bytes.length) := by
  unfold generate at generated
  unfold Statement.size at sized
  unfold reserves
  split at generated
  · next instruction isMachine =>
    obtain ⟨encoded, coded, rfl⟩ := exists_of_bind_pure_eq_ok generated
    have codeSize := Encode.size_of_instruction admissible isMachine coded
    have small : encoded.code.size ≤ 4 ∧ 0 < encoded.code.size := by
      cases encoded.code <;> simp [MachineCode.size]
    rw [isMachine] at sized ⊢
    cases sized
    refine ⟨by simp, fun _ => ?_, fun _ => ?_⟩
    · rw [MachineCode.length_bytes, ← codeSize, Nat.mod_eq_of_lt]
      exact Nat.lt_of_le_of_lt small.1 (by decide)
    · rw [MachineCode.length_bytes]
      exact small.2
  · next isWord =>
    obtain ⟨bytes, encoded, rfl⟩ := exists_of_bind_pure_eq_ok generated
    have count := length_of_word encoded
    rw [isWord] at sized ⊢
    cases sized
    refine ⟨by simp, fun _ => ?_, fun _ => ?_⟩
    · rw [count]
      rfl
    · rw [count]
      decide
  · next isByte =>
    obtain ⟨literal, read, rfl⟩ := exists_of_bind_pure_eq_ok generated
    have count := size_of_byteLiteral read
    rw [isByte] at sized ⊢
    obtain ⟨other, readAgain, rfl⟩ := exists_of_bind_pure_eq_ok sized
    rw [read] at readAgain
    cases readAgain
    exact ⟨by simp, fun _ => count.1, fun _ => count.2⟩
  · next isBase =>
    obtain ⟨base, _, rfl⟩ := exists_of_bind_pure_eq_ok generated
    rw [isBase] at sized ⊢
    cases sized
    exact ⟨by simp, fun _ => rfl, by simp [Operation.hasCode]⟩
  · next isStart =>
    cases generated
    rw [isStart] at sized ⊢
    cases sized
    exact ⟨by simp, fun _ => rfl, by simp [Operation.hasCode]⟩
  · next isEnd =>
    cases generated
    rw [isEnd] at sized ⊢
    cases sized
    exact ⟨by simp, fun _ => rfl, by simp [Operation.hasCode]⟩
  · next isReservation =>
    cases generated
    rw [isReservation]
    exact ⟨fun _ => rfl, by simp, by simp [Operation.hasCode]⟩
  · next isReservation =>
    cases generated
    rw [isReservation]
    exact ⟨fun _ => rfl, by simp, by simp [Operation.hasCode]⟩

/-- A field that moves lies in the code of an instruction of four bytes. -/
theorem modification_of_generate {machine : Machine} {symbols : SymbolTable} {site : Site}
    {statement : Statement} {made : Generated} {modification : Modification}
    (generated : statement.generate machine symbols site = .ok made)
    (named : made.modification = some modification) :
    made.bytes.length = 4 ∧ modification = ⟨site.address + 1, 5⟩ := by
  unfold generate at generated
  split at generated
  · obtain ⟨encoded, coded, rfl⟩ := exists_of_bind_pure_eq_ok generated
    rw [MachineCode.length_bytes]
    exact (Encode.modification_of_instruction coded named).2
  · obtain ⟨bytes, _, rfl⟩ := exists_of_bind_pure_eq_ok generated
    contradiction
  · obtain ⟨literal, _, rfl⟩ := exists_of_bind_pure_eq_ok generated
    contradiction
  · obtain ⟨base, _, rfl⟩ := exists_of_bind_pure_eq_ok generated
    contradiction
  all_goals
    cases generated
    contradiction

end Statement

namespace ObjectLine

/-- An object line made at a site, with its size and the site behind it. -/
structure Made (machine : Machine) (symbols : SymbolTable) (site : Site) (line : ObjectLine)
    (size : Nat) (next : Site) : Prop where
  size_eq : line.source.statement.size = .ok size
  address_eq : line.address = site.address
  generated : line.source.statement.generate machine symbols site =
    .ok ⟨line.bytes, line.modification, next.base⟩
  next_eq : next.address = site.address + size
  bounded : next.address < Address.limit

theorem generate_eq_ok_iff {machine : Machine} {symbols : SymbolTable} {site next : Site}
    {source : SourceLine} {line : ObjectLine} :
    generate machine symbols site source = .ok (line, next) ↔
      line.source = source ∧ ∃ size, Made machine symbols site line size next := by
  constructor
  · intro run
    obtain ⟨size, sizeOk, afterSize⟩ := exists_of_bind_eq_ok run
    obtain ⟨made, generated, afterCode⟩ := exists_of_bind_eq_ok afterSize
    obtain ⟨following, added, same⟩ := exists_of_bind_pure_eq_ok afterCode
    obtain ⟨sum, bound⟩ := Address.add_eq_ok_iff.mp added
    cases same
    exact ⟨rfl, size, sizeOk, rfl, generated, sum.symm, bound⟩
  · rintro ⟨rfl, size, made⟩
    have added : Address.add site.address size = .ok next.address :=
      Address.add_eq_ok_iff.mpr ⟨made.next_eq.symm, made.bounded⟩
    simp only [generate, made.size_eq, made.generated, added, bind, Except.bind]
    rw [← made.address_eq]
    rfl

/-- Object lines made one behind another, with their sizes and the site behind the last one. -/
inductive Trail (machine : Machine) (symbols : SymbolTable) :
    Site → List ObjectLine → List Nat → Site → Prop
  | nil (site : Site) : Trail machine symbols site [] [] site
  | cons {site next final : Site} {line : ObjectLine} {rest : List ObjectLine} {size : Nat}
      {sizes : List Nat} :
      Made machine symbols site line size next →
      Trail machine symbols next rest sizes final →
      Trail machine symbols site (line :: rest) (size :: sizes) final

/-- Generating lines succeeds exactly if there is a trail of object lines for them. -/
theorem generateFrom_eq_ok_iff {machine : Machine} {symbols : SymbolTable} {site : Site}
    {sources : List SourceLine} {lines : List ObjectLine} :
    generateFrom machine symbols site sources = .ok lines ↔
      lines.map ObjectLine.source = sources ∧
        ∃ sizes final, Trail machine symbols site lines sizes final := by
  constructor
  · intro run
    refine ⟨map_source_of_generateFrom run, ?_⟩
    induction sources generalizing site lines with
    | nil =>
      cases run
      exact ⟨[], site, .nil site⟩
    | cons source rest ih =>
      simp only [generateFrom] at run
      split at run
      · contradiction
      · next line next generated =>
        split at run
        · contradiction
        · next others generatedRest =>
          cases run
          obtain ⟨_, size, made⟩ := generate_eq_ok_iff.mp generated
          obtain ⟨sizes, final, trail⟩ := ih generatedRest
          exact ⟨size :: sizes, final, .cons made trail⟩
  · rintro ⟨rfl, sizes, final, trail⟩
    induction trail with
    | nil => rfl
    | cons made _ ih =>
      simp only [List.map_cons, generateFrom]
      rw [generate_eq_ok_iff.mpr ⟨rfl, _, made⟩]
      simp only [ih]

namespace Trail

variable {machine : Machine} {symbols : SymbolTable} {site final : Site} {lines : List ObjectLine}
  {sizes : List Nat}

/-- The sizes along a trail are those that the first pass counts with. -/
theorem haveSizes (trail : Trail machine symbols site lines sizes final) :
    SourceLine.HaveSizes (lines.map ObjectLine.source) sizes := by
  induction trail with
  | nil => rfl
  | cons made _ ih =>
    rw [List.map_cons]
    exact SourceLine.haveSizes_cons_iff.mpr ⟨_, _, rfl, made.size_eq, ih⟩

theorem final_address (trail : Trail machine symbols site lines sizes final) :
    final.address = site.address + sizes.sum := by
  induction trail with
  | nil => simp
  | cons made _ ih =>
    rw [ih, made.next_eq, List.sum_cons]
    omega

/-- A trail can be cut at any line, which stands behind the sizes of the lines in front of it. -/
theorem getElem (trail : Trail machine symbols site lines sizes final) {position : Nat}
    {line : ObjectLine} (present : lines[position]? = some line) :
    ∃ here size next, Trail machine symbols site (lines.take position) (sizes.take position) here ∧
      sizes[position]? = some size ∧ Made machine symbols here line size next := by
  induction trail generalizing position with
  | nil => simp at present
  | @cons site next final first rest size sizes made tail ih =>
    cases position with
    | zero =>
      cases present
      exact ⟨site, size, next, .nil site, rfl, made⟩
    | succ position =>
      obtain ⟨here, found, following, front, atPosition, madeThere⟩ := ih (by simpa using present)
      exact ⟨here, found, following, .cons made front, atPosition, madeThere⟩

theorem modification_eq (trail : Trail machine symbols site lines sizes final) :
    ∀ line ∈ lines, ∀ modification, line.modification = some modification →
      line.bytes.length = 4 ∧ modification = ⟨line.address + 1, 5⟩ := by
  induction trail with
  | nil => simp
  | cons made _ ih =>
    refine List.forall_mem_cons.mpr ⟨fun modification named => ?_, ih⟩
    rw [made.address_eq]
    exact Statement.modification_of_generate made.generated named

end Trail

end ObjectLine

end SicAssembler
