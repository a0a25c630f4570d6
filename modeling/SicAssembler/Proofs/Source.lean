import SicAssembler.SourceLine

/-! # What source programs hold

A line that can be read gives a statement of the machine's catalog, extended only where the machine
has an extended format. The program proper is the part of the lines in front of the first `END`,
together with that `END`.
-/

namespace SicAssembler

namespace Machine

theorem mem_operations_of_operation? {machine : Machine} {mnemonic : String} {operation : Operation}
    (found : machine.operation? mnemonic = some operation) : operation ∈ machine.operations :=
  List.mem_of_find?_eq_some found

theorem mem_operations_of_operator? {machine : Machine} {word : String} {operation : Operation}
    {extended : Bool} (found : machine.operator? word = some (operation, extended)) :
    operation ∈ machine.operations := by
  unfold operator? at found
  split at found
  · obtain ⟨other, inCatalog, same⟩ := Option.map_eq_some_iff.mp found
    cases same
    exact mem_operations_of_operation? inCatalog
  · obtain ⟨other, inCatalog, same⟩ := Option.map_eq_some_iff.mp found
    cases same
    exact mem_operations_of_operation? inCatalog

/-- An instruction of the operations is one of the instruction table. -/
theorem mem_instructions {machine : Machine} {instruction : Instruction}
    (member : .machine instruction ∈ machine.operations) : instruction ∈ machine.instructions := by
  rcases List.mem_append.mp member with inInstructions | inDirectives
  · obtain ⟨other, otherMember, same⟩ := List.mem_map.mp inInstructions
    cases same
    exact otherMember
  · obtain ⟨kind, _, same⟩ := List.mem_map.mp inDirectives
    contradiction

/-- SIC has one format. -/
theorem format_of_mem_sic {instruction : Instruction} (member : instruction ∈ sic.instructions) :
    instruction.format = .three := by
  obtain ⟨entry, _, rfl⟩ := List.mem_map.mp member
  rfl

end Machine

namespace Statement

/-- The operation is one of the machine's, and it is extended only where that is allowed. -/
structure Admissible (machine : Machine) (statement : Statement) : Prop where
  operation_mem : statement.operation ∈ machine.operations
  extended_allowed : statement.extended = true →
    extendedReason? machine statement.operation = none

/-- One word of a statement that was formed was read as its operation; the words around it are its
label and its operand. -/
theorem exists_operator_of_ofWords? {machine : Machine} {words : List String}
    {statement : Statement} (found : ofWords? machine words = some statement) :
    ∃ word, machine.operator? word = some (statement.operation, statement.extended) ∧
      words = statement.label.toList ++ [word] ++ (statement.operand.map Operand.text).toList := by
  unfold ofWords? at found
  split at found
  · next word =>
    obtain ⟨_, read, rfl⟩ := Option.map_eq_some_iff.mp found
    exact ⟨word, read, rfl⟩
  · next first second =>
    split at found
    · next read =>
      cases found
      exact ⟨first, read, rfl⟩
    · obtain ⟨_, read, rfl⟩ := Option.map_eq_some_iff.mp found
      exact ⟨second, read, rfl⟩
  · next label word operand =>
    obtain ⟨_, read, rfl⟩ := Option.map_eq_some_iff.mp found
    exact ⟨word, read, rfl⟩
  · contradiction

theorem operation_mem_of_ofWords? {machine : Machine} {words : List String} {statement : Statement}
    (found : ofWords? machine words = some statement) :
    statement.operation ∈ machine.operations := by
  obtain ⟨word, read, _⟩ := exists_operator_of_ofWords? found
  exact Machine.mem_operations_of_operator? read

/-- A statement passes the check of its marks if its label is plain and its extended format, if it
asks for one, exists. -/
theorem checkPlus_eq_ok_iff {machine : Machine} {statement checked : Statement} :
    checkPlus machine statement = .ok checked ↔
      checked = statement ∧ statement.label.filter hasPlus = none ∧
        (statement.extended = true → extendedReason? machine statement.operation = none) := by
  unfold checkPlus
  cases plain : statement.label.filter hasPlus with
  | some label => simp
  | none =>
    cases extended : statement.extended with
    | false => simp [eq_comm]
    | true => cases reason : extendedReason? machine statement.operation <;> simp [eq_comm]

/-- A line is read as nothing if it is inert, and otherwise as the statement of its words, at most
three of them. -/
theorem parse_eq_ok_iff {machine : Machine} {line : String} {found : Option Statement} :
    parse machine line = .ok found ↔
      isInert (Text.trim line.toList) = true ∧ found = none ∨
      isInert (Text.trim line.toList) = false ∧
        (Words.split (Text.trim line.toList)).length ≤ 3 ∧
        ∃ statement, found = some statement ∧
          ofWords? machine ((Words.split (Text.trim line.toList)).map String.ofList) =
            some statement ∧
          checkPlus machine statement = .ok statement := by
  cases inert : isInert (Text.trim line.toList) with
  | true => simp [parse, inert, eq_comm]
  | false =>
    by_cases long : 3 < (Words.split (Text.trim line.toList)).length
    · simp [parse, inert, long, Nat.not_le.mpr long]
    · cases formed : ofWords? machine ((Words.split (Text.trim line.toList)).map String.ofList) with
      | none => simp [parse, inert, long, formed]
      | some statement =>
        have read : parse machine line = (checkPlus machine statement).map some := by
          simp [parse, inert, long, formed]
        rw [read]
        constructor
        · intro parsed
          cases checked : checkPlus machine statement with
          | error fault =>
            rw [checked] at parsed
            contradiction
          | ok result =>
            rw [checked] at parsed
            cases parsed
            obtain ⟨rfl, _⟩ := checkPlus_eq_ok_iff.mp checked
            exact .inr ⟨rfl, Nat.not_lt.mp long, result, rfl, rfl, checked⟩
        · rintro (⟨inert, _⟩ | ⟨_, _, other, rfl, same, checked⟩)
          · contradiction
          · cases same
            rw [checked]
            rfl

/-- A statement that is read comes from the words of its line and passes the check of its marks. -/
theorem formed_of_parse {machine : Machine} {line : String} {statement : Statement}
    (parsed : parse machine line = .ok (some statement)) :
    ofWords? machine ((Words.split (Text.trim line.toList)).map String.ofList) = some statement ∧
      checkPlus machine statement = .ok statement := by
  rcases parse_eq_ok_iff.mp parsed with ⟨_, absent⟩ | ⟨_, _, found, same, formed⟩
  · contradiction
  · cases same
    exact formed

/-- Every statement that is read is admissible. -/
theorem admissible_of_parse {machine : Machine} {line : String} {statement : Statement}
    (parsed : parse machine line = .ok (some statement)) : statement.Admissible machine := by
  obtain ⟨formed, checked⟩ := formed_of_parse parsed
  obtain ⟨_, _, allowed⟩ := checkPlus_eq_ok_iff.mp checked
  exact ⟨operation_mem_of_ofWords? formed, allowed⟩

/-- The extended format exists for format 3 instructions of SIC/XE. -/
theorem extendedReason?_eq_none_iff {machine : Machine} {operation : Operation} :
    extendedReason? machine operation = none ↔
      machine = .xe ∧
        ∃ instruction, operation = .machine instruction ∧ instruction.format = .three := by
  cases machine with
  | sic => simp [extendedReason?]
  | xe =>
    cases operation with
    | machine instruction => simp [extendedReason?]
    | directive kind => simp [extendedReason?]

/-- Only format 3 instructions of SIC/XE are extended. -/
theorem Admissible.extended_cases {machine : Machine} {statement : Statement}
    (admissible : statement.Admissible machine) (extended : statement.extended = true) :
    machine = .xe ∧
      ∃ instruction, statement.operation = .machine instruction ∧ instruction.format = .three :=
  extendedReason?_eq_none_iff.mp (admissible.extended_allowed extended)

end Statement

namespace SourceLine

/-- A program is read text by text: a text without a statement adds no line. -/
theorem parseFrom_cons (machine : Machine) (number : Nat) (text : String) (rest : List String) :
    parseFrom machine number (text :: rest) = do
      let found ← atLine number (Statement.parse machine text)
      let others ← parseFrom machine (number + 1) rest
      return (found.map (⟨number, String.ofList (Text.trimEnd text.toList), ·⟩)).toList ++
        others := by
  rw [parseFrom]
  cases Statement.parse machine text with
  | error fault => rfl
  | ok found =>
    cases parseFrom machine (number + 1) rest with
    | error diagnostic => cases found <;> rfl
    | ok others => cases found <;> rfl

theorem exists_of_parseFrom_cons {machine : Machine} {number : Nat} {text : String}
    {rest : List String} {lines : List SourceLine}
    (parsed : parseFrom machine number (text :: rest) = .ok lines) :
    ∃ found others, Statement.parse machine text = .ok found ∧
      parseFrom machine (number + 1) rest = .ok others ∧
      lines = (found.map (⟨number, String.ofList (Text.trimEnd text.toList), ·⟩)).toList ++
        others := by
  rw [parseFrom_cons] at parsed
  obtain ⟨found, read, afterText⟩ := exists_of_bind_eq_ok parsed
  obtain ⟨others, parsedRest, same⟩ := exists_of_bind_pure_eq_ok afterText
  exact ⟨found, others, atLine_eq_ok_iff.mp read, parsedRest, same.symm⟩

/-- Every line that is read holds the statement of one of the texts. -/
theorem parse_of_mem_parseFrom {machine : Machine} {number : Nat} {texts : List String}
    {lines : List SourceLine} (parsed : parseFrom machine number texts = .ok lines) :
    ∀ line ∈ lines, ∃ text ∈ texts, Statement.parse machine text = .ok (some line.statement) := by
  induction texts generalizing number lines with
  | nil => cases parsed; simp
  | cons text rest ih =>
    obtain ⟨found, others, read, parsedRest, rfl⟩ := exists_of_parseFrom_cons parsed
    intro line member
    rcases List.mem_append.mp member with here | later
    · rw [Option.mem_toList, Option.map_eq_some_iff] at here
      obtain ⟨statement, rfl, rfl⟩ := here
      exact ⟨text, List.mem_cons_self, read⟩
    · obtain ⟨other, inRest, readOther⟩ := ih parsedRest line later
      exact ⟨other, List.mem_cons_of_mem text inRest, readOther⟩

private theorem admissible_of_parseFrom {machine : Machine} {number : Nat} {texts : List String}
    {lines : List SourceLine} (parsed : parseFrom machine number texts = .ok lines) :
    ∀ line ∈ lines, line.statement.Admissible machine := by
  intro line member
  obtain ⟨text, _, read⟩ := parse_of_mem_parseFrom parsed line member
  exact Statement.admissible_of_parse read

theorem isPrefix_throughEnd (lines : List SourceLine) : throughEnd lines <+: lines := by
  induction lines with
  | nil => exact List.prefix_refl []
  | cons line rest ih =>
    unfold throughEnd
    split
    · exact List.prefix_cons_inj line |>.mpr (List.nil_prefix)
    · exact List.prefix_cons_inj line |>.mpr ih

/-- The program proper is what stands in front of the first `END`, and that `END` if there is
one. -/
theorem throughEnd_eq (lines : List SourceLine) :
    throughEnd lines = lines.takeWhile (fun line => !line.isEnd) ++ (lines.find? isEnd).toList := by
  induction lines with
  | nil => rfl
  | cons line rest ih =>
    cases isEnd : line.isEnd with
    | true => simp [throughEnd, isEnd]
    | false => simp [throughEnd, isEnd, ih]

theorem admissible_throughEnd {machine : Machine} {texts : List String} {lines : List SourceLine}
    (parsed : parseAll machine texts = .ok lines) :
    ∀ line ∈ throughEnd lines, line.statement.Admissible machine := by
  intro line member
  exact admissible_of_parseFrom parsed line ((isPrefix_throughEnd lines).subset member)

end SourceLine

end SicAssembler
