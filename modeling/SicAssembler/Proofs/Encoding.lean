import SicAssembler.ObjectCode.Encode
import SicAssembler.Proofs.Numerals

/-! # When instructions can be encoded, and as what

An operand of SIC/XE means the address of a label or, if it is immediate, a decimal constant. Format
3 holds a constant of twelve bits or a displacement to a label; format 4 holds either as a number of
twenty bits. Format 2 names registers, and SIC holds an address of fifteen bits. The statements here
say exactly when each encoder succeeds and what it returns, so later proofs do not open the
encoders.
-/

namespace SicAssembler

def Target.value : Target → Nat
  | .label address => address
  | .constant value => value

private theorem Numeral.toWord?_eq_some_iff {value : Int} {word : Nat} :
    toWord? value = some word ↔ value = word ∧ word < Address.limit := by
  unfold toWord? Address.limit
  split
  · next inRange =>
    rw [Option.some.injEq]
    omega
  · next outOfRange =>
    constructor
    · intro none
      contradiction
    · rintro ⟨rfl, small⟩
      exact absurd ⟨by omega, by omega⟩ outOfRange

theorem Statement.required_eq_ok_iff {statement : Statement} {operand : Operand} :
    statement.required = .ok operand ↔ statement.operand = some operand := by
  unfold required
  cases statement.operand with
  | none => simp
  | some found => simp

namespace Operand

variable {operand : Operand} {symbols : SymbolTable} {value other : Nat}

/-- A key is read as a number of 32 bits exactly if it is one in decimal. There are no blank
characters around a key, so it is itself the numeral. -/
theorem exists_word_iff :
    (∃ number, Numeral.readDecimal operand.key = .ok number ∧
        Numeral.toWord? number = some value) ↔
      Numeral.Denotes operand.key.toList value ∧ value < Address.limit := by
  have trimmed : Text.trim operand.key.toList = operand.key.toList := by
    rw [key, String.toList_ofList, Text.trim_trim]
  simp only [Numeral.readDecimal_eq_ok_iff, Numeral.toWord?_eq_some_iff, trimmed]
  constructor
  · rintro ⟨_, ⟨denotes, _⟩, rfl, small⟩
    exact ⟨denotes, small⟩
  · rintro ⟨denotes, small⟩
    refine ⟨value, ⟨denotes, ?_⟩, rfl, small⟩
    unfold Address.limit at small
    omega

/-- The number that an operand stands for: the address of the label that its key names or, if it
names none, the number of 32 bits that the key is in decimal. -/
inductive Means (symbols : SymbolTable) (operand : Operand) : Nat → Prop
  | label {address : Nat} (known : symbols.get? operand.key = some address) :
      Means symbols operand address
  | number {value : Nat} (unknown : symbols.get? operand.key = none)
      (denotes : Numeral.Denotes operand.key.toList value) (small : value < Address.limit) :
      Means symbols operand value

theorem Means.unique (first : operand.Means symbols value) (second : operand.Means symbols other) :
    value = other := by
  cases first with
  | label known =>
    cases second with
    | label otherKnown => exact Option.some.inj (known.symm.trans otherKnown)
    | number unknown => simp [known] at unknown
  | number unknown denotes =>
    cases second with
    | label known => simp [unknown] at known
    | number _ otherDenotes => exact Int.ofNat.inj (denotes.unique otherDenotes)

end Operand

namespace Encode

variable {symbols : SymbolTable} {site : Site} {operand : Operand}

/-- A key that is a label always means the label. -/
theorem target_of_label {address : Nat} (known : symbols.get? operand.key = some address) :
    target symbols site operand = .ok (.label address) := by
  simp [target, known]

/-- A constant is an immediate operand whose key is a numeral of 32 bits and no label. -/
theorem target_of_constant {number : Int} {value : Nat} (unknown : symbols.get? operand.key = none)
    (immediate : operand.isImmediate = true)
    (numeral : Numeral.readDecimal operand.key = .ok number)
    (word : Numeral.toWord? number = some value) :
    target symbols site operand = .ok (.constant value) := by
  simp only [target, unknown, immediate, numeral, word]

theorem target_eq_ok_cases {found : Target} (resolved : target symbols site operand = .ok found) :
    (∃ address, found = .label address ∧ symbols.get? operand.key = some address) ∨
    (∃ (number : Int) (value : Nat), found = .constant value ∧
      symbols.get? operand.key = none ∧ operand.isImmediate = true ∧
      Numeral.readDecimal operand.key = .ok number ∧ Numeral.toWord? number = some value) := by
  cases known : symbols.get? operand.key with
  | some address =>
    rw [target_of_label known] at resolved
    cases resolved
    exact .inl ⟨address, rfl, rfl⟩
  | none =>
    simp only [target, known] at resolved
    cases immediate : operand.isImmediate with
    | false =>
      simp only [immediate] at resolved
      cases resolved
    | true =>
      cases numeral : Numeral.readDecimal operand.key with
      | error fault =>
        simp only [immediate, numeral] at resolved
        cases resolved
      | ok number =>
        cases word : Numeral.toWord? number with
        | none =>
          simp only [immediate, numeral, word] at resolved
          cases resolved
        | some value =>
          simp only [immediate, numeral, word] at resolved
          cases resolved
          exact .inr ⟨number, value, rfl, rfl, rfl, rfl, word⟩

theorem get?_of_target_label {address : Nat}
    (resolved : target symbols site operand = .ok (.label address)) :
    symbols.get? operand.key = some address := by
  rcases target_eq_ok_cases resolved with ⟨other, same, known⟩ | ⟨_, _, other, _⟩
  · cases same
    exact known
  · contradiction

theorem numeral_of_target_constant {value : Nat}
    (resolved : target symbols site operand = .ok (.constant value)) :
    symbols.get? operand.key = none ∧ operand.isImmediate = true ∧
      Numeral.Denotes operand.key.toList value ∧ value < Address.limit := by
  rcases target_eq_ok_cases resolved with
    ⟨_, other, _⟩ | ⟨number, word, same, unknown, immediate, numeral, fits⟩
  · contradiction
  · cases same
    exact ⟨unknown, immediate, Operand.exists_word_iff.mp ⟨number, numeral, fits⟩⟩

/-- An operand that cannot be resolved is not reported as out of reach. -/
theorem target_ne_outOfReach (text : String) (address : Nat) :
    target symbols site operand ≠ .error (.outOfReach text address) := by
  intro failed
  cases known : symbols.get? operand.key with
  | some address =>
    rw [target_of_label known] at failed
    cases failed
  | none =>
    cases immediate : operand.isImmediate with
    | false =>
      simp only [target, known, immediate] at failed
      cases failed
    | true =>
      cases numeral : Numeral.readDecimal operand.key with
      | error fault =>
        simp only [target, known, immediate, numeral] at failed
        cases failed
      | ok number =>
        cases word : Numeral.toWord? number with
        | none =>
          simp only [target, known, immediate, numeral, word] at failed
          cases failed
        | some value =>
          rw [target_of_constant known immediate numeral word] at failed
          cases failed

/-- `BASE` announces what its operand means, wherever it stands. -/
theorem baseValue_eq_ok_iff {statement : Statement} {base : Nat} :
    baseValue symbols site statement = .ok base ↔
      ∃ operand, statement.operand = some operand ∧ operand.Means symbols base := by
  constructor
  · intro announced
    obtain ⟨operand, required, afterOperand⟩ := exists_of_bind_eq_ok announced
    refine ⟨operand, Statement.required_eq_ok_iff.mp required, ?_⟩
    cases known : symbols.get? operand.key with
    | some address =>
      simp only [known] at afterOperand
      cases afterOperand
      exact .label known
    | none =>
      simp only [known] at afterOperand
      cases numeral : Numeral.readDecimal operand.key with
      | error failure =>
        simp only [numeral] at afterOperand
        cases afterOperand
      | ok number =>
        simp only [numeral] at afterOperand
        cases word : Numeral.toWord? number with
        | none =>
          simp only [word] at afterOperand
          cases afterOperand
        | some value =>
          simp only [word] at afterOperand
          cases afterOperand
          obtain ⟨denotes, small⟩ := Operand.exists_word_iff.mp ⟨number, numeral, word⟩
          exact .number known denotes small
  · rintro ⟨operand, present, means⟩
    have required := Statement.required_eq_ok_iff.mpr present
    cases means with
    | label known => simp only [baseValue, required, bind, Except.bind, known]
    | number unknown denotes small =>
      obtain ⟨number, numeral, word⟩ := Operand.exists_word_iff.mpr ⟨denotes, small⟩
      simp only [baseValue, required, bind, Except.bind, unknown, numeral, word]

end Encode

namespace Displacement

/-- Twelve bits read as a signed number. -/
def signed (field : Nat) : Int := if field < 2048 then field else (field : Int) - 4096

private theorem select?_of_near {target next : Nat}
    (near : -2048 ≤ (target : Int) - next ∧ (target : Int) - next ≤ 2047) (base : Nat) :
    select? target next base = some (.pcRelative ((target : Int) - next)) := by
  simp only [select?, pcRelative?, if_pos near, Option.some_or]

private theorem select?_of_far {target next : Nat}
    (far : ¬(-2048 ≤ (target : Int) - next ∧ (target : Int) - next ≤ 2047)) (base : Nat) :
    select? target next base = baseRelative? target base := by
  simp only [select?, pcRelative?, if_neg far, Option.none_or]

/-- A displacement that is selected leads to its target; the base is used only where the program
counter is out of reach. -/
theorem select?_eq_some_iff {target next base : Nat} {displacement : Displacement} :
    select? target next base = some displacement ↔
      (displacement = .pcRelative ((target : Int) - next) ∧
        -2048 ≤ (target : Int) - next ∧ (target : Int) - next ≤ 2047) ∨
      (displacement = .baseRelative (target - base) ∧
        ¬(-2048 ≤ (target : Int) - next ∧ (target : Int) - next ≤ 2047) ∧
        base ≤ target ∧ target ≤ base + 4095) := by
  by_cases near : -2048 ≤ (target : Int) - next ∧ (target : Int) - next ≤ 2047
  · rw [select?_of_near near]
    constructor
    · intro selected
      cases selected
      exact .inl ⟨rfl, near⟩
    · rintro (⟨rfl, _⟩ | ⟨_, far, _⟩)
      · rfl
      · exact absurd near far
  · rw [select?_of_far near]
    constructor
    · intro selected
      unfold baseRelative? at selected
      split at selected
      · next above =>
        cases selected
        exact .inr ⟨rfl, near, above⟩
      · contradiction
    · rintro (⟨_, close⟩ | ⟨rfl, _, above⟩)
      · exact absurd close near
      · exact if_pos above

/-- A target is in reach of the next instruction or of the base. -/
def InReach (target next base : Nat) : Prop :=
  (-2048 ≤ (target : Int) - next ∧ (target : Int) - next ≤ 2047) ∨
    (base ≤ target ∧ target ≤ base + 4095)

theorem inReach_of_select? {target next base : Nat} {displacement : Displacement}
    (selected : select? target next base = some displacement) : InReach target next base := by
  rcases select?_eq_some_iff.mp selected with ⟨_, near⟩ | ⟨_, _, above⟩
  · exact .inl near
  · exact .inr above

theorem select?_eq_none_iff {target next base : Nat} :
    select? target next base = none ↔ ¬InReach target next base := by
  constructor
  · intro none
    rintro (near | above)
    · rw [select?_of_near near] at none
      contradiction
    · by_cases near : -2048 ≤ (target : Int) - next ∧ (target : Int) - next ≤ 2047
      · rw [select?_of_near near] at none
        contradiction
      · rw [select?_of_far near, baseRelative?, if_pos above] at none
        contradiction
  · intro outside
    rw [select?_of_far fun near => outside (.inl near)]
    exact if_neg fun above => outside (.inr above)

/-- Reading the field of a PC-relative displacement back gives the offset. -/
theorem signed_field_pcRelative {offset : Int} (low : -2048 ≤ offset) (high : offset ≤ 2047) :
    signed (field (.pcRelative offset)) = offset := by
  have encoded : (field (.pcRelative offset) : Int) = offset % 4096 :=
    Int.toNat_of_nonneg (by omega)
  unfold signed
  rcases Int.lt_or_le offset 0 with below | above
  · rw [if_neg (by omega)]
    omega
  · rw [if_pos (by omega)]
    omega

theorem field_baseRelative {offset : Nat} (small : offset ≤ 4095) :
    field (.baseRelative offset) = offset := Nat.mod_eq_of_lt (by omega)

end Displacement

namespace Encode

variable {symbols : SymbolTable} {site : Site} {found : Instruction} {statement : Statement}

theorem format3_of_none (absent : statement.operand = none) :
    format3 symbols site found statement =
      .ok (.format3 found.code (Flags.ofOperand none) 0) := by
  simp only [format3, absent]

theorem format3_of_constant {operand : Operand} {value : Nat}
    (present : statement.operand = some operand)
    (resolved : target symbols site operand = .ok (.constant value)) :
    format3 symbols site found statement =
      if value < 0x1000 then .ok (.format3 found.code (Flags.ofOperand (some operand)) value)
      else .error (.outOfReach operand.text site.address) := by
  simp only [format3, present, resolved]
  rfl

theorem format3_of_label {operand : Operand} {address : Nat}
    (present : statement.operand = some operand)
    (resolved : target symbols site operand = .ok (.label address))
    (room : site.address + 3 < Address.limit) :
    format3 symbols site found statement =
      match Displacement.select? address (site.address + 3) site.base with
      | some displacement => .ok (.format3 found.code
          (withDisplacement (Flags.ofOperand (some operand)) displacement) displacement.field)
      | none => .error (.outOfReach operand.text site.address) := by
  have next : Address.add site.address 3 = .ok (site.address + 3) := if_pos room
  cases selected : Displacement.select? address (site.address + 3) site.base <;>
    simp only [format3, present, resolved, bind, Except.bind, next, selected]

/-- Format 3 succeeds without an operand, with a small constant, and with a label in reach. -/
theorem format3_eq_ok_cases {code : MachineCode}
    (made : format3 symbols site found statement = .ok code) :
    (statement.operand = none ∧ code = .format3 found.code (Flags.ofOperand none) 0) ∨
    (∃ operand value, statement.operand = some operand ∧
      target symbols site operand = .ok (.constant value) ∧ value < 0x1000 ∧
      code = .format3 found.code (Flags.ofOperand (some operand)) value) ∨
    (∃ operand address displacement, statement.operand = some operand ∧
      target symbols site operand = .ok (.label address) ∧ site.address + 3 < Address.limit ∧
      Displacement.select? address (site.address + 3) site.base = some displacement ∧
      code = .format3 found.code
        (withDisplacement (Flags.ofOperand (some operand)) displacement) displacement.field) := by
  cases present : statement.operand with
  | none =>
    rw [format3_of_none present] at made
    cases made
    exact .inl ⟨rfl, rfl⟩
  | some operand =>
    cases resolved : target symbols site operand with
    | error fault =>
      simp only [format3, present, resolved, bind, Except.bind] at made
      contradiction
    | ok reached =>
      cases reached with
      | constant value =>
        rw [format3_of_constant present resolved] at made
        split at made
        · next small =>
          cases made
          exact .inr (.inl ⟨operand, value, rfl, resolved, small, rfl⟩)
        · contradiction
      | label address =>
        by_cases room : site.address + 3 < Address.limit
        · rw [format3_of_label present resolved room] at made
          split at made
          · next displacement selected =>
            cases made
            exact .inr (.inr ⟨operand, address, displacement, rfl, resolved, room, selected, rfl⟩)
          · contradiction
        · have overflow : Address.add site.address 3 = .error .addressRange := if_neg room
          simp only [format3, present, resolved, bind, Except.bind, overflow] at made
          contradiction

/-- The field that moves with the program: every operand of format 4 but an immediate one. -/
def relocation (address : Nat) (operand : Operand) : Option Modification :=
  if operand.isImmediate then none else some ⟨address + 1, 5⟩

theorem format4_of_none (absent : statement.operand = none) :
    format4 symbols site found statement =
      .ok ⟨.format4 found.code { Flags.ofOperand none with e := true } 0, none⟩ := by
  simp only [format4, absent]

theorem format4_of_target {operand : Operand} {reached : Target}
    (present : statement.operand = some operand)
    (resolved : target symbols site operand = .ok reached)
    (room : operand.isImmediate = false → site.address + 1 < Address.limit) :
    format4 symbols site found statement =
      if 0x100000 ≤ reached.value then .error (.invalidOperand operand.text .addressOver20Bits)
      else .ok ⟨.format4 found.code { Flags.ofOperand (some operand) with e := true }
        reached.value, relocation site.address operand⟩ := by
  cases immediate : operand.isImmediate with
  | true =>
    cases reached <;>
      simp [format4, present, resolved, bind, Except.bind, immediate, relocation, Target.value]
  | false =>
    have field : Address.add site.address 1 = .ok (site.address + 1) := if_pos (room immediate)
    cases reached <;>
      simp [format4, present, resolved, bind, Except.bind, immediate, relocation,
        Target.value, field]

/-- The address of a moving field is itself in range. -/
theorem room_of_format4 {operand : Operand} {encoded : Encoded}
    (present : statement.operand = some operand) (direct : operand.isImmediate = false)
    (made : format4 symbols site found statement = .ok encoded) :
    site.address + 1 < Address.limit := by
  by_cases room : site.address + 1 < Address.limit
  · exact room
  · have overflow : Address.add site.address 1 = .error .addressRange := if_neg room
    simp only [format4, present] at made
    obtain ⟨reached, _, afterTarget⟩ := exists_of_bind_eq_ok made
    simp only [direct, overflow, bind, Except.bind] at afterTarget
    split at afterTarget
    all_goals
      split at afterTarget
      · contradiction
      · contradiction

/-- Format 4 succeeds without an operand and with every target of twenty bits. -/
theorem format4_eq_ok_cases {encoded : Encoded}
    (made : format4 symbols site found statement = .ok encoded) :
    (statement.operand = none ∧
      encoded = ⟨.format4 found.code { Flags.ofOperand none with e := true } 0, none⟩) ∨
    (∃ operand reached, statement.operand = some operand ∧
      target symbols site operand = .ok reached ∧ reached.value < 0x100000 ∧
      encoded = ⟨.format4 found.code { Flags.ofOperand (some operand) with e := true }
        reached.value, relocation site.address operand⟩) := by
  cases present : statement.operand with
  | none =>
    rw [format4_of_none present] at made
    cases made
    exact .inl ⟨rfl, rfl⟩
  | some operand =>
    cases resolved : target symbols site operand with
    | error fault =>
      simp only [format4, present, resolved, bind, Except.bind] at made
      contradiction
    | ok reached =>
      have room : operand.isImmediate = false → site.address + 1 < Address.limit :=
        fun direct => room_of_format4 present direct made
      rw [format4_of_target present resolved room] at made
      split at made
      · contradiction
      · next small =>
        cases made
        exact .inr ⟨operand, reached, rfl, resolved, Nat.not_le.mp small, rfl⟩

theorem format1_eq_ok_iff {code : MachineCode} :
    format1 found statement = .ok code ↔
      statement.operand = none ∧ code = .format1 found.code := by
  unfold format1
  cases statement.operand with
  | none => simp [eq_comm]
  | some operand => simp

theorem registerCode_eq_ok_iff {name : String} {code : Nat} :
    registerCode name = .ok code ↔
      ∃ register : Register, register.name = name ∧ register.code = code := by
  unfold registerCode
  constructor
  · intro read
    split at read
    · next register found =>
      cases read
      exact ⟨register, by simpa using List.find?_some found, rfl⟩
    · contradiction
  · rintro ⟨register, rfl, rfl⟩
    rw [Register.ofName?_name]

theorem bounds_of_smallNumber {least greatest value : Nat} {text : String}
    (read : smallNumber least greatest text = .ok value) :
    least ≤ value ∧ value ≤ greatest ∧ Numeral.readDecimal text = .ok (value : Int) := by
  unfold smallNumber at read
  split at read
  · next number numeral =>
    split at read
    · next bounds =>
      cases read
      have same : (number.toNat : Int) = number := Int.toNat_of_nonneg (by omega)
      exact ⟨by omega, by omega, by rw [numeral, same]⟩
    · contradiction
  · contradiction

/-- Format 2 has one part or two. -/
theorem format2_eq_ok_cases {code : MachineCode} (made : format2 found statement = .ok code) :
    ∃ operand first high, statement.operand = some operand ∧ firstNibble found first = .ok high ∧
      (operand.parts = (first, []) ∧ code = .format2 found.code high 0 ∨
        ∃ second low, operand.parts = (first, [second]) ∧ secondNibble found second = .ok low ∧
          code = .format2 found.code high low) := by
  obtain ⟨operand, required, afterOperand⟩ := exists_of_bind_eq_ok made
  have present := Statement.required_eq_ok_iff.mp required
  split at afterOperand
  · next first parts =>
    obtain ⟨high, readFirst, rfl⟩ := exists_of_bind_pure_eq_ok afterOperand
    exact ⟨operand, first, high, present, readFirst, .inl ⟨parts, rfl⟩⟩
  · next first second parts =>
    obtain ⟨high, readFirst, afterHigh⟩ := exists_of_bind_eq_ok afterOperand
    obtain ⟨low, readSecond, rfl⟩ := exists_of_bind_pure_eq_ok afterHigh
    exact ⟨operand, first, high, present, readFirst, .inr ⟨second, low, parts, readSecond, rfl⟩⟩
  · contradiction

/-- SIC encodes instructions without an operand and with a label below `2 ^ 15`. -/
theorem absolute_eq_ok_cases {code : MachineCode}
    (made : absolute symbols site found statement = .ok code) :
    (statement.operand = none ∧ code = .absolute found.code false 0) ∨
    (∃ operand address, statement.operand = some operand ∧ operand.mode = .simple ∧
      symbols.get? operand.key = some address ∧ address < 0x8000 ∧
      code = .absolute found.code operand.isIndexed address) := by
  cases present : statement.operand with
  | none =>
    simp only [absolute, present] at made
    cases made
    exact .inl ⟨rfl, rfl⟩
  | some operand =>
    simp only [absolute, present] at made
    split at made
    · contradiction
    · next marked =>
      simp only [Bool.or_eq_true, not_or, Bool.not_eq_true] at marked
      have simple : operand.mode = .simple := by simp [Operand.mode, marked]
      split at made
      · contradiction
      · next address known =>
        split at made
        · next small =>
          cases made
          exact .inr ⟨operand, address, rfl, simple, known, small, rfl⟩
        · contradiction

/-- The encoder of an instruction is chosen by the machine, the format and the `+`. -/
theorem instruction_eq_ok_cases {machine : Machine} {encoded : Encoded}
    (made : instruction machine symbols site found statement = .ok encoded) :
    (machine = .sic ∧
      ∃ code, absolute symbols site found statement = .ok code ∧ encoded = ⟨code, none⟩) ∨
    (machine = .xe ∧ found.format = .one ∧
      ∃ code, format1 found statement = .ok code ∧ encoded = ⟨code, none⟩) ∨
    (machine = .xe ∧ found.format = .two ∧
      ∃ code, format2 found statement = .ok code ∧ encoded = ⟨code, none⟩) ∨
    (machine = .xe ∧ found.format = .three ∧ statement.extended = true ∧
      format4 symbols site found statement = .ok encoded) ∨
    (machine = .xe ∧ found.format = .three ∧ statement.extended = false ∧
      ∃ code, format3 symbols site found statement = .ok code ∧ encoded = ⟨code, none⟩) := by
  unfold instruction at made
  split at made
  · obtain ⟨code, coded, rfl⟩ := exists_of_bind_pure_eq_ok made
    exact .inl ⟨rfl, code, coded, rfl⟩
  · next format =>
    obtain ⟨code, coded, rfl⟩ := exists_of_bind_pure_eq_ok made
    exact .inr (.inl ⟨rfl, format, code, coded, rfl⟩)
  · next format =>
    obtain ⟨code, coded, rfl⟩ := exists_of_bind_pure_eq_ok made
    exact .inr (.inr (.inl ⟨rfl, format, code, coded, rfl⟩))
  · next format =>
    split at made
    · next extended => exact .inr (.inr (.inr (.inl ⟨rfl, format, extended, made⟩)))
    · next plain =>
      obtain ⟨code, coded, rfl⟩ := exists_of_bind_pure_eq_ok made
      exact .inr (.inr (.inr (.inr ⟨rfl, format, Bool.eq_false_iff.mpr plain, code, coded, rfl⟩)))

theorem instruction_of_extended (format : found.format = .three)
    (extended : statement.extended = true) :
    instruction .xe symbols site found statement = format4 symbols site found statement := by
  simp only [instruction, format, extended, if_true]

theorem instruction_of_plain (format : found.format = .three)
    (plain : statement.extended = false) :
    instruction .xe symbols site found statement =
      (format3 symbols site found statement).map fun code => { code := code } := by
  simp only [instruction, format, plain, Bool.false_eq_true, if_false]
  cases format3 symbols site found statement <;> rfl

/-- Only the address field of format 4 ever moves. -/
theorem modification_of_instruction {machine : Machine} {encoded : Encoded}
    {modification : Modification}
    (made : instruction machine symbols site found statement = .ok encoded)
    (named : encoded.modification = some modification) :
    found.format = .three ∧ encoded.code.size = 4 ∧ modification = ⟨site.address + 1, 5⟩ := by
  rcases instruction_eq_ok_cases made with
    ⟨_, _, _, rfl⟩ | ⟨_, _, _, _, rfl⟩ | ⟨_, _, _, _, rfl⟩ | ⟨_, format, _, coded⟩ |
      ⟨_, _, _, _, _, rfl⟩
  · contradiction
  · contradiction
  · contradiction
  · rcases format4_eq_ok_cases coded with ⟨_, rfl⟩ | ⟨operand, reached, _, _, _, rfl⟩
    · contradiction
    · refine ⟨format, rfl, ?_⟩
      unfold relocation at named
      split at named
      · contradiction
      · exact (Option.some.inj named).symm
  · contradiction

end Encode

end SicAssembler
