import SicAssembler.Proofs.Generation
import SicAssembler.Proofs.MovedLayout

/-! # Code at another address

When a program moves, displacements stay as they are, because the place of an instruction, the base
and the labels move together. Only format 4 holds the address of a label itself, and there the
address grows by the distance. This needs a base that moves: it has to be announced by a label.
-/

namespace SicAssembler

/-- A target seen from a program that moved. Constants stay. -/
def Target.moved (distance : Nat) : Target → Target
  | .label address => .label (address + distance)
  | .constant value => .constant value

def Modification.moved (distance : Nat) (modification : Modification) : Modification :=
  { modification with address := modification.address + distance }

/-- A site and the same site in a program that moved. The base moves once `BASE` has announced
it. -/
structure Site.Moved (distance : Nat) (based : Bool) (here there : Site) : Prop where
  address_eq : there.address = here.address + distance
  base_eq : based = true → there.base = here.base + distance

namespace Displacement

private theorem select?_moved_of_pcRelative {target next base : Nat} {offset : Int}
    (selected : select? target next base = some (.pcRelative offset)) (distance other : Nat) :
    select? (target + distance) (next + distance) other = some (.pcRelative offset) := by
  rcases select?_eq_some_iff.mp selected with ⟨same, low, high⟩ | ⟨other, _⟩
  · cases same
    refine select?_eq_some_iff.mpr (.inl ⟨?_, by omega, by omega⟩)
    congr 1
    omega
  · contradiction

private theorem select?_moved (target next base distance : Nat) :
    select? (target + distance) (next + distance) (base + distance) = select? target next base := by
  unfold select? pcRelative? baseRelative?
  have offset : ((target + distance : Nat) : Int) - (next + distance : Nat) = target - next := by
    omega
  have above : target + distance - (base + distance) = target - base := by omega
  simp only [offset, above]
  congr 1
  exact if_congr (by omega) rfl rfl

end Displacement

namespace Encode

variable {symbols : SymbolTable} {here there : Site} {operand : Operand} {statement : Statement}
  {found : Instruction} {distance : Nat} {based : Bool}

/-- The meaning of an operand moves with the labels. -/
theorem target_moved {reached : Target} (resolved : target symbols here operand = .ok reached)
    (there : Site) :
    target (symbols.moved distance) there operand = .ok (reached.moved distance) := by
  rcases target_eq_ok_cases resolved with
    ⟨address, rfl, known⟩ | ⟨number, value, rfl, unknown, immediate, numeral, word⟩
  · apply target_of_label
    rw [SymbolTable.get?_moved, known]
    rfl
  · refine target_of_constant ?_ immediate numeral word
    rw [SymbolTable.get?_moved, unknown]
    rfl

/-- Format 3 stays as it is, unless it counts from a base that does not move. -/
theorem format3_moved {code : MachineCode} (moved : Site.Moved distance based here there)
    (room : there.address + 3 < Address.limit)
    (made : format3 symbols here found statement = .ok code)
    (anchored : based = false → ∀ flags field,
      code = .format3 found.code flags field → flags.b = false) :
    format3 (symbols.moved distance) there found statement = .ok code := by
  rcases format3_eq_ok_cases made with
    ⟨absent, rfl⟩ | ⟨operand, value, present, resolved, small, rfl⟩ |
      ⟨operand, target, displacement, present, resolved, _, selected, rfl⟩
  · exact format3_of_none absent
  · have same : Encode.target (symbols.moved distance) there operand = .ok (.constant value) :=
      target_moved resolved there
    rw [format3_of_constant present same, if_pos small]
  · have same : Encode.target (symbols.moved distance) there operand =
        .ok (.label (target + distance)) := target_moved resolved there
    have next : there.address + 3 = here.address + 3 + distance := by
      have := moved.address_eq
      omega
    have selectedThere : Displacement.select? (target + distance) (there.address + 3) there.base =
        some displacement := by
      rw [next]
      cases displacement with
      | pcRelative offset => exact Displacement.select?_moved_of_pcRelative selected distance _
      | baseRelative offset =>
        cases known : based with
        | true => rw [moved.base_eq known, Displacement.select?_moved, selected]
        | false => exact absurd (anchored known _ _ rfl) Bool.noConfusion
    rw [format3_of_label present same room, selectedThere]

/-- Format 4 without a moving field stays as it is; otherwise its address grows. -/
theorem format4_moved {encoded : Encoded} (moved : Site.Moved distance based here there)
    (room : there.address + 1 < Address.limit)
    (labels : ∀ name address, symbols.get? name = some address → address + distance < 0x100000)
    (free : ∀ operand, statement.operand = some operand → operand.isImmediate = true →
      symbols.get? operand.key = none)
    (made : format4 symbols here found statement = .ok encoded) :
    (encoded.modification = none ∧
      format4 (symbols.moved distance) there found statement = .ok encoded) ∨
    (∃ flags address modification, encoded.code = .format4 found.code flags address ∧
      encoded.modification = some modification ∧ address + distance < 0x100000 ∧
      format4 (symbols.moved distance) there found statement =
        .ok ⟨.format4 found.code flags (address + distance),
          some (modification.moved distance)⟩) := by
  rcases format4_eq_ok_cases made with
    ⟨absent, rfl⟩ | ⟨operand, reached, present, resolved, small, rfl⟩
  · exact .inl ⟨rfl, format4_of_none absent⟩
  · have same : target (symbols.moved distance) there operand = .ok (reached.moved distance) :=
      target_moved resolved there
    rw [format4_of_target present same fun _ => room]
    cases reached with
    | constant value =>
      obtain ⟨_, immediate, _, _⟩ := numeral_of_target_constant resolved
      refine .inl ⟨by simp [relocation, immediate], ?_⟩
      rw [Target.moved, if_neg (Nat.not_le.mpr small)]
      simp [relocation, immediate]
    | label address =>
      have known := get?_of_target_label resolved
      have direct : operand.isImmediate = false := by
        cases immediate : operand.isImmediate with
        | false => rfl
        | true => simp [free operand present immediate] at known
      have bound := labels _ _ known
      refine .inr ⟨_, address, ⟨here.address + 1, 5⟩, rfl, by simp [relocation, direct], bound, ?_⟩
      have field : there.address + 1 = here.address + 1 + distance := by
        have := moved.address_eq
        omega
      rw [Target.moved, Target.value, if_neg (Nat.not_le.mpr bound)]
      simp [relocation, direct, Modification.moved, field]

/-- Formats 1 and 2 know nothing of addresses. -/
theorem instruction_of_short (short : found.format ≠ .three) (symbols other : SymbolTable)
    (here there : Site) :
    instruction .xe symbols here found statement =
      instruction .xe other there found statement := by
  unfold instruction
  cases format : found.format with
  | one => rfl
  | two => rfl
  | three => exact absurd format short

private theorem baseValue_moved {base : Nat}
    (named : ∀ operand, statement.operand = some operand → (symbols.get? operand.key).isSome)
    (announced : baseValue symbols here statement = .ok base) (there : Site) :
    baseValue (symbols.moved distance) there statement = .ok (base + distance) := by
  obtain ⟨operand, present, means⟩ := baseValue_eq_ok_iff.mp announced
  cases means with
  | label known =>
    apply baseValue_eq_ok_iff.mpr
    refine ⟨operand, present, .label ?_⟩
    rw [SymbolTable.get?_moved, known]
    rfl
  | number unknown =>
    have isLabel := named operand present
    simp [unknown] at isLabel

end Encode

/-- How code changes when the program moves: not at all, or in the field that its modification
names. -/
inductive CodeMoved (distance : Nat) (bytes : List UInt8) (modification : Option Modification)
    (others : List UInt8) (other : Option Modification) : Prop
  | same : modification = none → other = none → others = bytes →
      CodeMoved distance bytes modification others other
  | field {code : UInt8} {flags : Flags} {address : Nat} {field : Modification} :
      address + distance < 0x100000 → bytes = (MachineCode.format4 code flags address).bytes →
      modification = some field →
      others = (MachineCode.format4 code flags (address + distance)).bytes →
      other = some (field.moved distance) → CodeMoved distance bytes modification others other

/-- What a statement has to fulfil so that its code can move: no label in format 4 without a
modification, no base but that of a label, and no use of a base that was not announced. -/
structure Statement.Movable (symbols : SymbolTable) (based : Bool) (here : Site)
    (statement : Statement) : Prop where
  free : statement.extended = true → ∀ operand, statement.operand = some operand →
    operand.isImmediate = true → symbols.get? operand.key = none
  named : statement.operation = .directive .base → ∀ operand, statement.operand = some operand →
    (symbols.get? operand.key).isSome
  anchored : based = false → ∀ found flags field, statement.operation = .machine found →
    Encode.format3 symbols here found statement = .ok (.format3 found.code flags field) →
    found.format = .three → statement.extended = false → flags.b = false

namespace Statement

variable {symbols : SymbolTable} {here there : Site} {statement : Statement} {distance : Nat}
  {based : Bool}

def isBase (statement : Statement) : Bool := statement.operation == .directive .base

/-- The code of an instruction in a program that moved. -/
theorem generate_moved_of_machine {found : Instruction} {made : Generated}
    (isMachine : statement.operation = .machine found)
    (movable : statement.Movable symbols based here)
    (moved : Site.Moved distance based here there) (room : there.address + 3 < Address.limit)
    (labels : ∀ name address, symbols.get? name = some address → address + distance < 0x100000)
    (generated : statement.generate .xe symbols here = .ok made) :
    made.base = here.base ∧
      ∃ other, statement.generate .xe (symbols.moved distance) there = .ok other ∧
        CodeMoved distance made.bytes made.modification other.bytes other.modification ∧
        other.base = there.base := by
  simp only [generate, isMachine] at generated ⊢
  obtain ⟨encoded, coded, rfl⟩ := exists_of_bind_pure_eq_ok generated
  refine ⟨rfl, ?_⟩
  by_cases format : found.format = .three
  · cases extended : statement.extended with
    | true =>
      have codedAs := (Encode.instruction_of_extended format extended).symm.trans coded
      have fieldRoom : there.address + 1 < Address.limit := by omega
      rw [Encode.instruction_of_extended format extended]
      rcases Encode.format4_moved moved fieldRoom labels (movable.free extended) codedAs with
        ⟨noField, same⟩ | ⟨flags, address, modification, code, field, bound, other⟩
      · rw [same]
        exact ⟨_, rfl, .same noField noField rfl, rfl⟩
      · rw [other]
        exact ⟨_, rfl, .field bound (congrArg MachineCode.bytes code) field rfl rfl, rfl⟩
    | false =>
      have codedAs := (Encode.instruction_of_plain format extended).symm.trans coded
      rw [Encode.instruction_of_plain format extended]
      cases plain : Encode.format3 symbols here found statement with
      | error fault =>
        rw [plain] at codedAs
        cases codedAs
      | ok code =>
        rw [plain] at codedAs
        cases codedAs
        have anchored : based = false → ∀ flags field,
            code = .format3 found.code flags field → flags.b = false := by
          rintro notBased flags field rfl
          exact movable.anchored notBased found flags field isMachine plain format extended
        rw [Encode.format3_moved moved room plain anchored]
        exact ⟨_, rfl, .same rfl rfl rfl, rfl⟩
  · rw [Encode.instruction_of_short format _ symbols _ here, coded]
    have noField : encoded.modification = none := by
      cases named : encoded.modification with
      | none => rfl
      | some modification => exact absurd (Encode.modification_of_instruction coded named).1 format
    exact ⟨_, rfl, .same noField noField rfl, rfl⟩

/-- The code of a statement in a program that moved. The base moves as soon as it is announced. -/
theorem generate_moved {made : Generated} (movable : statement.Movable symbols based here)
    (moved : Site.Moved distance based here there) (room : there.address + 3 < Address.limit)
    (labels : ∀ name address, symbols.get? name = some address → address + distance < 0x100000)
    (generated : statement.generate .xe symbols here = .ok made) :
    ∃ other, statement.generate .xe (symbols.moved distance) there = .ok other ∧
      CodeMoved distance made.bytes made.modification other.bytes other.modification ∧
      ((based || statement.isBase) = true → other.base = made.base + distance) := by
  cases operation : statement.operation with
  | machine found =>
    obtain ⟨base, other, generatedThere, movedCode, otherBase⟩ :=
      generate_moved_of_machine operation movable moved room labels generated
    refine ⟨other, generatedThere, movedCode, fun known => ?_⟩
    rw [base, otherBase]
    exact moved.base_eq (by simpa [isBase, operation] using known)
  | directive directive =>
    have notBase (other : directive ≠ .base) (known : (based || statement.isBase) = true) :
        there.base = here.base + distance := by
      apply moved.base_eq
      simpa [isBase, operation, other] using known
    cases directive with
    | word =>
      simp only [generate, operation] at generated ⊢
      obtain ⟨bytes, encoded, rfl⟩ := exists_of_bind_pure_eq_ok generated
      rw [encoded]
      exact ⟨_, rfl, .same rfl rfl rfl, notBase (by decide)⟩
    | byte =>
      simp only [generate, operation] at generated ⊢
      obtain ⟨literal, read, rfl⟩ := exists_of_bind_pure_eq_ok generated
      rw [read]
      exact ⟨_, rfl, .same rfl rfl rfl, notBase (by decide)⟩
    | base =>
      simp only [generate, operation] at generated ⊢
      obtain ⟨base, announced, rfl⟩ := exists_of_bind_pure_eq_ok generated
      rw [Encode.baseValue_moved (movable.named operation) announced there]
      exact ⟨_, rfl, .same rfl rfl rfl, fun _ => rfl⟩
    | start | finish | reserveBytes | reserveWords =>
      simp only [generate, operation] at generated ⊢
      cases generated
      exact ⟨_, rfl, .same rfl rfl rfl, notBase (by decide)⟩

end Statement

end SicAssembler
