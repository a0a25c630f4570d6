import SicAssembler.Proofs.Assembly
import SicAssembler.Proofs.Decoding

/-! # References reach their targets

An instruction of format 3 or 4 says in its flags and its field what its operand refers to. A
machine that reads them back, with the base register set as the last `BASE` announced, arrives at
the label or at the constant that the operand names. A target that cannot be reached is an error
and never a wrong field.
-/

namespace SicAssembler

theorem Operand.isIndexed_iff {operand : Operand} :
    operand.isIndexed = true ↔ ∃ front, operand.text.toList = front ++ [',', 'X'] := by
  rw [isIndexed, Option.isSome_iff_exists]
  simp only [beforeIndex?_eq_some_iff]

/-- The flags `n`, `i` and `x` show how an operand is written. -/
structure Flags.Shows (flags : Flags) (operand : Option Operand) : Prop where
  immediate_iff : flags.n = false ∧ flags.i = true ↔
    ∃ found, operand = some found ∧ found.text.toList.head? = some '#'
  indirect_iff : flags.n = true ∧ flags.i = false ↔
    ∃ found, operand = some found ∧ found.text.toList.head? = some '@'
  simple_iff : flags.n = true ∧ flags.i = true ↔
    ∀ found, operand = some found →
      found.text.toList.head? ≠ some '#' ∧ found.text.toList.head? ≠ some '@'
  indexed_iff : flags.x = true ↔
    ∃ found front, operand = some found ∧ found.text.toList = front ++ [',', 'X']

namespace Flags

/-- The flags of an operand show it, and leave the other flags clear. -/
theorem shows_ofOperand (operand : Option Operand) : (ofOperand operand).Shows operand := by
  cases operand with
  | none => constructor <;> simp [ofOperand]
  | some found =>
    have indexed : found.isIndexed = true ↔ _ := Operand.isIndexed_iff
    by_cases hash : found.text.toList.head? = some '#'
    · have immediate : found.isImmediate = true := by simpa [Operand.isImmediate] using hash
      constructor <;> simp [ofOperand, Operand.mode, immediate, hash, indexed]
    · have direct : found.isImmediate = false := by simpa [Operand.isImmediate] using hash
      by_cases sign : found.text.toList.head? = some '@'
      · have indirect : found.isIndirect = true := by simpa [Operand.isIndirect] using sign
        constructor <;> simp [ofOperand, Operand.mode, direct, indirect, sign, indexed]
      · have simple : found.isIndirect = false := by simpa [Operand.isIndirect] using sign
        constructor <;> simp [ofOperand, Operand.mode, direct, simple, hash, sign, indexed]

@[simp] theorem b_ofOperand (operand : Option Operand) : (ofOperand operand).b = false := by
  unfold ofOperand
  split <;> rfl

@[simp] theorem p_ofOperand (operand : Option Operand) : (ofOperand operand).p = false := by
  unfold ofOperand
  split <;> rfl

@[simp] theorem e_ofOperand (operand : Option Operand) : (ofOperand operand).e = false := by
  unfold ofOperand
  split <;> rfl

variable {flags other : Flags} {operand : Option Operand}

theorem Shows.congr (shown : flags.Shows operand) (n : other.n = flags.n) (i : other.i = flags.i)
    (x : other.x = flags.x) : other.Shows operand where
  immediate_iff := by rw [n, i, shown.immediate_iff]
  indirect_iff := by rw [n, i, shown.indirect_iff]
  simple_iff := by rw [n, i, shown.simple_iff]
  indexed_iff := by rw [x, shown.indexed_iff]

/-- Simple addressing has both flags, so one of `n` and `i` is always set. -/
theorem Shows.ni_ne_zero (shown : flags.Shows operand) : flags.ni ≠ 0 := by
  intro zero
  have n : flags.n = false := by
    cases set : flags.n with
    | false => rfl
    | true => simp [ni, set] at zero
  have i : flags.i = false := by
    cases set : flags.i with
    | false => rfl
    | true => simp [ni, set] at zero
  have simple : flags.n = true ∧ flags.i = true := by
    refine shown.simple_iff.mpr fun found present => ⟨fun hash => ?_, fun sign => ?_⟩
    · have marked := (shown.immediate_iff.mpr ⟨found, present, hash⟩).2
      rw [i] at marked
      contradiction
    · have marked := (shown.indirect_iff.mpr ⟨found, present, sign⟩).1
      rw [n] at marked
      contradiction
  rw [n] at simple
  exact absurd simple.1 Bool.false_ne_true

end Flags

/-- What the flags and the field of an instruction of format 3 or 4 have to say about the operand of
its statement. -/
structure Reference (symbols : SymbolTable) (site : Site) (statement : Statement) (flags : Flags)
    (field : Nat) : Prop where
  shown : flags.Shows statement.operand
  extended_eq : flags.e = statement.extended
  /-- Without an operand the field is empty. -/
  absent : statement.operand = none → flags.b = false ∧ flags.p = false ∧ field = 0
  /-- Format 3 reaches a label from the program counter or, where that is too far, from the base. -/
  near : ∀ operand target, statement.operand = some operand →
    symbols.get? operand.key = some target → statement.extended = false →
    (flags.p = true ∧ flags.b = false ∧
        Displacement.signed field + ((site.address : Int) + 3) = target ∨
      flags.p = false ∧ flags.b = true ∧ field + site.base = target) ∧
    (flags.p = true ↔ -2048 ≤ (target : Int) - ((site.address : Int) + 3) ∧
      (target : Int) - ((site.address : Int) + 3) ≤ 2047)
  /-- Format 4 holds the address of a label. -/
  far : ∀ operand target, statement.operand = some operand →
    symbols.get? operand.key = some target → statement.extended = true →
    flags.b = false ∧ flags.p = false ∧ field = target
  /-- Every other operand is an immediate constant, which the field holds. -/
  constant : ∀ operand, statement.operand = some operand → symbols.get? operand.key = none →
    operand.text.toList.head? = some '#' ∧ Numeral.Denotes operand.key.toList field ∧
    flags.b = false ∧ flags.p = false

namespace Reference

variable {symbols : SymbolTable} {site : Site} {statement : Statement} {flags : Flags} {field : Nat}
  {operand : Operand}

private theorem of_none (absent : statement.operand = none) (shown : flags.Shows none)
    (extended : flags.e = statement.extended) (b : flags.b = false) (p : flags.p = false) :
    Reference symbols site statement flags 0 where
  shown := by rwa [absent]
  extended_eq := extended
  absent := fun _ => ⟨b, p, rfl⟩
  near := fun operand _ present => by simp [absent] at present
  far := fun operand _ present => by simp [absent] at present
  constant := fun operand present => by simp [absent] at present

private theorem of_constant {value : Nat} (present : statement.operand = some operand)
    (resolved : Encode.target symbols site operand = .ok (.constant value))
    (shown : flags.Shows (some operand)) (extended : flags.e = statement.extended)
    (b : flags.b = false) (p : flags.p = false) : Reference symbols site statement flags value := by
  obtain ⟨unknown, immediate, denotes, _⟩ := Encode.numeral_of_target_constant resolved
  refine ⟨by rwa [present], extended, fun absent => by simp [present] at absent, ?_, ?_, ?_⟩
  · intro other target same known
    cases present.symm.trans same
    simp [unknown] at known
  · intro other target same known
    cases present.symm.trans same
    simp [unknown] at known
  · intro other same _
    cases present.symm.trans same
    exact ⟨by simpa [Operand.isImmediate] using immediate, denotes, b, p⟩

private theorem of_far {target : Nat} (present : statement.operand = some operand)
    (known : symbols.get? operand.key = some target) (shown : flags.Shows (some operand))
    (extended : statement.extended = true) (e : flags.e = true) (b : flags.b = false)
    (p : flags.p = false) : Reference symbols site statement flags target := by
  refine ⟨by rwa [present], e.trans extended.symm, fun absent => by simp [present] at absent,
    ?_, ?_, ?_⟩
  · intro other reached _ _ plain
    simp [extended] at plain
  · intro other reached same named _
    cases present.symm.trans same
    exact ⟨b, p, Option.some.inj (known.symm.trans named)⟩
  · intro other same unknown
    cases present.symm.trans same
    simp [known] at unknown

private theorem of_near {target : Nat} {displacement : Displacement}
    (present : statement.operand = some operand) (known : symbols.get? operand.key = some target)
    (plain : statement.extended = false)
    (selected : Displacement.select? target (site.address + 3) site.base = some displacement) :
    Reference symbols site statement
      (Encode.withDisplacement (Flags.ofOperand (some operand)) displacement)
      displacement.field := by
  have shown := Flags.shows_ofOperand (some operand)
  refine ⟨?_, ?_, fun absent => by simp [present] at absent, ?_, ?_, ?_⟩
  · rw [present]
    apply shown.congr <;> (unfold Encode.withDisplacement; split <;> rfl)
  · rw [plain]
    unfold Encode.withDisplacement
    split <;> exact Flags.e_ofOperand _
  · intro other reached same named _
    cases present.symm.trans same
    obtain rfl : target = reached := Option.some.inj (known.symm.trans named)
    rcases Displacement.select?_eq_some_iff.mp selected with
      ⟨rfl, low, high⟩ | ⟨rfl, tooFar, above, below⟩
    · have offset := Displacement.signed_field_pcRelative low high
      refine ⟨.inl ⟨rfl, Flags.b_ofOperand _, by omega⟩, fun _ => by omega, fun _ => rfl⟩
    · have offset := Displacement.field_baseRelative (show target - site.base ≤ 4095 by omega)
      have clear : (Flags.ofOperand (some operand)).p = false := Flags.p_ofOperand _
      refine ⟨.inr ⟨clear, rfl, by omega⟩, fun set => ?_, fun near => ?_⟩
      · exact absurd (set.symm.trans clear) Bool.noConfusion
      · exact absurd (by omega) tooFar
  · intro other reached _ _ extended
    simp [plain] at extended
  · intro other same unknown
    cases present.symm.trans same
    simp [known] at unknown

variable {found : Instruction}

theorem of_format3 (plain : statement.extended = false) {code : MachineCode}
    (made : Encode.format3 symbols site found statement = .ok code) :
    ∃ flags field, Reference symbols site statement flags field ∧ field < 0x1000 ∧
      code = .format3 found.code flags field := by
  rcases Encode.format3_eq_ok_cases made with
    ⟨absent, rfl⟩ | ⟨operand, value, present, resolved, small, rfl⟩ |
      ⟨operand, target, displacement, present, resolved, _, selected, rfl⟩
  · exact ⟨_, 0, of_none absent (Flags.shows_ofOperand none) plain.symm rfl rfl, by decide, rfl⟩
  · refine ⟨_, value, ?_, small, rfl⟩
    apply of_constant present resolved (Flags.shows_ofOperand _)
    · rw [plain, Flags.e_ofOperand]
    · exact Flags.b_ofOperand _
    · exact Flags.p_ofOperand _
  · have known := Encode.get?_of_target_label resolved
    exact ⟨_, _, of_near present known plain selected, displacement.field_lt, rfl⟩

theorem of_format4 (extended : statement.extended = true) {encoded : Encoded}
    (made : Encode.format4 symbols site found statement = .ok encoded) :
    ∃ flags field, Reference symbols site statement flags field ∧ field < 0x100000 ∧
      encoded.code = .format4 found.code flags field := by
  rcases Encode.format4_eq_ok_cases made with
    ⟨absent, rfl⟩ | ⟨operand, reached, present, resolved, small, rfl⟩
  · have shown : Flags.Shows { Flags.ofOperand none with e := true } none :=
      (Flags.shows_ofOperand none).congr rfl rfl rfl
    exact ⟨_, 0, of_none absent shown extended.symm rfl rfl, by decide, rfl⟩
  · have shown : Flags.Shows { Flags.ofOperand (some operand) with e := true } (some operand) :=
      (Flags.shows_ofOperand (some operand)).congr rfl rfl rfl
    refine ⟨_, reached.value, ?_, small, rfl⟩
    cases reached with
    | label target =>
      exact of_far present (Encode.get?_of_target_label resolved) shown extended rfl
        (Flags.b_ofOperand _) (Flags.p_ofOperand _)
    | constant value =>
      exact of_constant present resolved shown extended.symm (Flags.b_ofOperand _)
        (Flags.p_ofOperand _)

/-- The bytes of an encoded instruction, read back, refer to what the operand names. -/
theorem decode?_of_instruction (catalogued : found ∈ Machine.xe.instructions)
    (format : found.format = .three) {encoded : Encoded}
    (made : Encode.instruction .xe symbols site found statement = .ok encoded) :
    ∃ flags field, Reference symbols site statement flags field ∧
      MachineCode.decode? .xe encoded.code.bytes =
        some (if statement.extended then .format4 found.code flags field
          else .format3 found.code flags field, []) := by
  simp only [Encode.instruction, format] at made
  split at made
  · next extended =>
    obtain ⟨flags, field, reference, small, code⟩ := of_format4 extended made
    refine ⟨flags, field, reference, ?_⟩
    have back := MachineCode.decode?_format4 catalogued reference.shown.ni_ne_zero
      (reference.extended_eq.trans extended) small []
    rw [code, extended, ← List.append_nil (MachineCode.bytes _), back]
    rfl
  · next notExtended =>
    have plain := Bool.eq_false_iff.mpr notExtended
    obtain ⟨code, coded, rfl⟩ := exists_of_bind_pure_eq_ok made
    obtain ⟨flags, field, reference, small, rfl⟩ := of_format3 plain coded
    refine ⟨flags, field, reference, ?_⟩
    have back := MachineCode.decode?_format3 catalogued reference.shown.ni_ne_zero
      (reference.extended_eq.trans plain) small []
    rw [plain, ← List.append_nil (MachineCode.bytes _), back]
    rfl

end Reference

namespace Encode

variable {symbols : SymbolTable} {site : Site} {statement : Statement} {found : Instruction}

/-- What an instruction can refer to: a label that it reaches, or a constant below a bound. -/
def Encodable (symbols : SymbolTable) (reaches : Nat → Prop) (bound : Nat) (operand : Operand) :
    Prop :=
  (∃ target, symbols.get? operand.key = some target ∧ reaches target) ∨
  (symbols.get? operand.key = none ∧ operand.isImmediate = true ∧
    ∃ value : Nat, Numeral.Denotes operand.key.toList value ∧ value < bound)

/-- The operand names a label or a constant, but twelve bits do not lead to it. -/
def OutOfReach (symbols : SymbolTable) (site : Site) (operand : Operand) : Prop :=
  (∃ target, symbols.get? operand.key = some target ∧
    ¬Displacement.InReach target (site.address + 3) site.base) ∨
  (symbols.get? operand.key = none ∧ operand.isImmediate = true ∧
    ∃ value : Nat, Numeral.Denotes operand.key.toList value ∧
      0x1000 ≤ value ∧ value < Address.limit)

private theorem target_of_numeral (site : Site) {operand : Operand} {value : Nat}
    (unknown : symbols.get? operand.key = none) (immediate : operand.isImmediate = true)
    (denotes : Numeral.Denotes operand.key.toList value) (small : value < Address.limit) :
    target symbols site operand = .ok (.constant value) := by
  obtain ⟨number, numeral, word⟩ := Operand.exists_word_iff.mpr ⟨denotes, small⟩
  exact target_of_constant unknown immediate numeral word

/-- Format 3 is possible exactly for a label in reach and for a constant of twelve bits. -/
theorem exists_format3_iff {operand : Operand} (present : statement.operand = some operand)
    (room : site.address + 3 < Address.limit) :
    (∃ code, format3 symbols site found statement = .ok code) ↔
      Encodable symbols (Displacement.InReach · (site.address + 3) site.base) 0x1000 operand := by
  constructor
  · rintro ⟨code, made⟩
    rcases format3_eq_ok_cases made with
      ⟨absent, _⟩ | ⟨other, value, same, resolved, small, _⟩ |
        ⟨other, target, displacement, same, resolved, _, selected, _⟩
    · simp [present] at absent
    · cases present.symm.trans same
      obtain ⟨unknown, immediate, denotes, _⟩ := numeral_of_target_constant resolved
      exact .inr ⟨unknown, immediate, value, denotes, small⟩
    · cases present.symm.trans same
      exact .inl ⟨target, get?_of_target_label resolved, Displacement.inReach_of_select? selected⟩
  · rintro (⟨target, known, reach⟩ | ⟨unknown, immediate, value, denotes, small⟩)
    · rw [format3_of_label present (target_of_label known) room]
      cases selected : Displacement.select? target (site.address + 3) site.base with
      | some displacement => exact ⟨_, rfl⟩
      | none => exact absurd reach (Displacement.select?_eq_none_iff.mp selected)
    · have bounded : value < Address.limit := Nat.lt_of_lt_of_le small (by decide)
      have resolved := target_of_numeral site unknown immediate denotes bounded
      rw [format3_of_constant present resolved, if_pos small]
      exact ⟨_, rfl⟩

/-- Format 4 is possible exactly for labels and constants of twenty bits. -/
theorem exists_format4_iff {operand : Operand} (present : statement.operand = some operand)
    (room : site.address + 3 < Address.limit) :
    (∃ encoded, format4 symbols site found statement = .ok encoded) ↔
      Encodable symbols (· < 0x100000) 0x100000 operand := by
  have fieldRoom : operand.isImmediate = false → site.address + 1 < Address.limit :=
    fun _ => by omega
  constructor
  · rintro ⟨encoded, made⟩
    rcases format4_eq_ok_cases made with ⟨absent, _⟩ | ⟨other, reached, same, resolved, small, _⟩
    · simp [present] at absent
    · cases present.symm.trans same
      cases reached with
      | label target => exact .inl ⟨target, get?_of_target_label resolved, small⟩
      | constant value =>
        obtain ⟨unknown, immediate, denotes, _⟩ := numeral_of_target_constant resolved
        exact .inr ⟨unknown, immediate, value, denotes, small⟩
  · rintro (⟨target, known, small⟩ | ⟨unknown, immediate, value, denotes, small⟩)
    · rw [format4_of_target present (target_of_label known) fieldRoom]
      exact ⟨_, if_neg (Nat.not_le.mpr small)⟩
    · have bounded : value < Address.limit := Nat.lt_of_lt_of_le small (by decide)
      have resolved := target_of_numeral site unknown immediate denotes bounded
      rw [format4_of_target present resolved fieldRoom]
      exact ⟨_, if_neg (Nat.not_le.mpr small)⟩

/-- An operand is out of reach exactly if format 3 was asked for, the operand means something, and
twelve bits do not lead to it. -/
theorem format3_eq_outOfReach_iff {text : String} {address : Nat}
    (room : site.address + 3 < Address.limit) :
    format3 symbols site found statement = .error (.outOfReach text address) ↔
      address = site.address ∧ ∃ operand, statement.operand = some operand ∧ text = operand.text ∧
        OutOfReach symbols site operand := by
  constructor
  · intro failed
    cases present : statement.operand with
    | none =>
      rw [format3_of_none present] at failed
      cases failed
    | some operand =>
      cases resolved : target symbols site operand with
      | error fault =>
        simp only [format3, present, resolved, bind, Except.bind] at failed
        cases failed
        exact absurd resolved (target_ne_outOfReach _ _)
      | ok reached =>
        cases reached with
        | constant value =>
          obtain ⟨unknown, immediate, denotes, small⟩ := numeral_of_target_constant resolved
          rw [format3_of_constant present resolved] at failed
          split at failed
          · cases failed
          · next large =>
            cases failed
            exact ⟨rfl, operand, rfl, rfl,
              .inr ⟨unknown, immediate, value, denotes, by omega, small⟩⟩
        | label target =>
          rw [format3_of_label present resolved room] at failed
          split at failed
          · cases failed
          · next selected =>
            cases failed
            exact ⟨rfl, operand, rfl, rfl, .inl ⟨target, get?_of_target_label resolved,
              Displacement.select?_eq_none_iff.mp selected⟩⟩
  · rintro ⟨rfl, operand, present, rfl, ⟨target, known, outside⟩ |
      ⟨unknown, immediate, value, denotes, large, small⟩⟩
    · rw [format3_of_label present (target_of_label known) room,
        Displacement.select?_eq_none_iff.mpr outside]
    · have resolved := target_of_numeral site unknown immediate denotes small
      rw [format3_of_constant present resolved, if_neg (by omega)]

private theorem format4_ne_outOfReach (room : site.address + 3 < Address.limit) (text : String)
    (address : Nat) :
    format4 symbols site found statement ≠ .error (.outOfReach text address) := by
  intro failed
  cases present : statement.operand with
  | none =>
    rw [format4_of_none present] at failed
    cases failed
  | some operand =>
    cases resolved : target symbols site operand with
    | error fault =>
      simp only [format4, present, resolved, bind, Except.bind] at failed
      cases failed
      exact target_ne_outOfReach _ _ resolved
    | ok reached =>
      rw [format4_of_target present resolved fun _ => by omega] at failed
      split at failed <;> cases failed

/-- When an instruction of format 3 or 4 can be encoded. -/
theorem exists_instruction_iff (format : found.format = .three)
    (room : site.address + 3 < Address.limit) :
    (∃ encoded, instruction .xe symbols site found statement = .ok encoded) ↔
      ∀ operand, statement.operand = some operand →
        (statement.extended = true → Encodable symbols (· < 0x100000) 0x100000 operand) ∧
        (statement.extended = false → Encodable symbols
          (Displacement.InReach · (site.address + 3) site.base) 0x1000 operand) := by
  cases extended : statement.extended with
  | true =>
    rw [instruction_of_extended format extended]
    cases present : statement.operand with
    | none => simp [format4_of_none present]
    | some operand => simp [exists_format4_iff present room]
  | false =>
    rw [instruction_of_plain format extended]
    cases present : statement.operand with
    | none => simp [format3_of_none present, Except.map]
    | some operand =>
      have plain : (∃ code, format3 symbols site found statement = .ok code) ↔ _ :=
        exists_format3_iff present room
      cases made : format3 symbols site found statement with
      | ok code => simpa [made, Except.map] using plain
      | error fault => simpa [made, Except.map] using plain

/-- When an instruction of format 3 or 4 is refused as out of reach. -/
theorem instruction_eq_outOfReach_iff (format : found.format = .three)
    (room : site.address + 3 < Address.limit) {text : String} {address : Nat} :
    instruction .xe symbols site found statement = .error (.outOfReach text address) ↔
      statement.extended = false ∧ address = site.address ∧
      ∃ operand, statement.operand = some operand ∧ text = operand.text ∧
        OutOfReach symbols site operand := by
  cases extended : statement.extended with
  | true =>
    rw [instruction_of_extended format extended]
    exact ⟨fun failed => absurd failed (format4_ne_outOfReach room text address), by simp⟩
  | false =>
    rw [instruction_of_plain format extended, ← format3_eq_outOfReach_iff room]
    cases format3 symbols site found statement <;> simp [Except.map]

end Encode

/-- What the base register holds behind some lines: the number that the operand of the last `BASE`
among them means; without a `BASE`, what the register held in front of them. -/
def SourceLine.BaseAfter (symbols : SymbolTable) (before : Nat) (lines : List SourceLine)
    (base : Nat) : Prop :=
  match (lines.filter fun line => line.statement.operation = .directive .base).getLast? with
  | none => base = before
  | some line => ∃ operand, line.statement.operand = some operand ∧ operand.Means symbols base

namespace SourceLine.BaseAfter

variable {symbols : SymbolTable} {line : SourceLine} {lines : List SourceLine}
  {before middle base other : Nat}

private theorem cons_of_ne (silent : line.statement.operation ≠ .directive .base)
    (rest : BaseAfter symbols before lines base) :
    BaseAfter symbols before (line :: lines) base := by
  unfold BaseAfter
  rw [List.filter_cons_of_neg (by simpa using silent)]
  exact rest

private theorem cons_of_base {operand : Operand}
    (isBase : line.statement.operation = .directive .base)
    (present : line.statement.operand = some operand) (means : operand.Means symbols middle)
    (rest : BaseAfter symbols middle lines base) :
    BaseAfter symbols before (line :: lines) base := by
  unfold BaseAfter at rest ⊢
  rw [List.filter_cons_of_pos (by simpa using isBase), List.getLast?_cons]
  -- A later `BASE` decides alone; without one, this line is the last.
  split at rest
  · next last =>
    subst rest
    rw [last]
    exact ⟨operand, present, means⟩
  · next later last =>
    rw [last]
    exact rest

theorem unique (first : BaseAfter symbols before lines base)
    (second : BaseAfter symbols before lines other) : base = other := by
  unfold BaseAfter at first second
  split at first
  · next last =>
    rw [last] at second
    exact first.trans second.symm
  · next line last =>
    rw [last] at second
    obtain ⟨operand, present, means⟩ := first
    obtain ⟨otherOperand, otherPresent, otherMeans⟩ := second
    cases present.symm.trans otherPresent
    exact means.unique otherMeans

end SourceLine.BaseAfter

namespace Statement

variable {machine : Machine} {symbols : SymbolTable} {site : Site} {statement : Statement}
  {made : Generated}

/-- Only `BASE` changes what the base register is known to hold. -/
theorem base_of_generate_of_ne (silent : statement.operation ≠ .directive .base)
    (generated : statement.generate machine symbols site = .ok made) : made.base = site.base := by
  unfold generate at generated
  split at generated
  · obtain ⟨encoded, _, rfl⟩ := exists_of_bind_pure_eq_ok generated
    rfl
  · obtain ⟨bytes, _, rfl⟩ := exists_of_bind_pure_eq_ok generated
    rfl
  · obtain ⟨literal, _, rfl⟩ := exists_of_bind_pure_eq_ok generated
    rfl
  · next isBase => exact absurd isBase silent
  all_goals
    cases generated
    rfl

/-- Behind `BASE` the base register holds what the operand means. -/
theorem base_of_generate_of_eq (isBase : statement.operation = .directive .base)
    (generated : statement.generate machine symbols site = .ok made) :
    ∃ operand, statement.operand = some operand ∧ operand.Means symbols made.base := by
  simp only [generate, isBase] at generated
  obtain ⟨base, announced, rfl⟩ := exists_of_bind_pure_eq_ok generated
  exact Encode.baseValue_eq_ok_iff.mp announced

end Statement

/-- Along a trail, the base register holds what the last `BASE` means. -/
theorem ObjectLine.Trail.baseAfter {machine : Machine} {symbols : SymbolTable} {site final : Site}
    {lines : List ObjectLine} {sizes : List Nat}
    (trail : Trail machine symbols site lines sizes final) :
    SourceLine.BaseAfter symbols site.base (lines.map ObjectLine.source) final.base := by
  induction trail with
  | nil => exact rfl
  | @cons site next _ line _ _ _ made _ ih =>
    by_cases isBase : line.source.statement.operation = .directive .base
    · obtain ⟨operand, present, means⟩ := Statement.base_of_generate_of_eq isBase made.generated
      exact .cons_of_base isBase present means ih
    · have kept : next.base = site.base := Statement.base_of_generate_of_ne isBase made.generated
      rw [kept] at ih
      exact .cons_of_ne isBase ih

/-- The object code of a statement refers to what its operand names. -/
theorem Assembly.reference_at {texts : List String} {program : ObjectProgram} {after : Assembler}
    {source : List SourceLine} {lines : List ObjectLine} {sizes : List Nat} {final : Site}
    (assembly : Assembly .xe texts program after source lines sizes final)
    {position : Nat} {line : SourceLine} {entry : ListingLine} {found : Instruction}
    (present : (SourceLine.throughEnd source)[position]? = some line)
    (listed : after.listing[position]? = some entry)
    (isMachine : line.statement.operation = .machine found) (format : found.format = .three) :
    ∃ base flags field,
      SourceLine.BaseAfter after.symbols 0 ((SourceLine.throughEnd source).take position) base ∧
      MachineCode.decode? .xe entry.bytes =
        some (if line.statement.extended then .format4 found.code flags field
          else .format3 found.code flags field, []) ∧
      Reference after.symbols ⟨entry.address, base⟩ line.statement flags field := by
  obtain ⟨object, here, size, next, atPosition, rfl, _, front, made, _⟩ := assembly.line_at present
  obtain rfl := assembly.entry_eq atPosition listed
  have catalogued := Machine.mem_instructions
    (isMachine ▸ (assembly.admissible object (List.mem_of_getElem? atPosition)).operation_mem)
  have base : SourceLine.BaseAfter after.symbols 0
      ((SourceLine.throughEnd source).take position) here.base := by
    rw [← assembly.sources_eq, ← List.map_take]
    exact front.baseAfter
  have generated := made.generated
  simp only [Statement.generate, isMachine] at generated
  obtain ⟨encoded, coded, same⟩ := exists_of_bind_pure_eq_ok generated
  obtain ⟨flags, field, reference, decoded⟩ :=
    Reference.decode?_of_instruction catalogued format coded
  refine ⟨here.base, flags, field, base, ?_, ?_⟩
  · have bytes : encoded.code.bytes = object.bytes := congrArg Generated.bytes same
    rw [ListingLine.bytes_ofObjectLine, ← bytes]
    exact decoded
  · have address : (ListingLine.ofObjectLine object).address = here.address := made.address_eq
    rw [address]
    exact reference

/-- References reach their targets. In an assembled SIC/XE program, the object code of every format
3 or 4 statement can be read back as the code of its operation, six flags and a field; flags and
field refer to what the operand names, seen from the address of the statement and with the base
register set to the label or the number behind the last `BASE` above it, or to 0. Encoding fails as
out of reach exactly if twelve bits do not lead to the operand, and succeeds exactly if the operand
can be encoded. -/
theorem references_reach_targets {state after : Assembler} {texts : List String}
    {program : ObjectProgram} (machine : state.machine = .xe)
    (assembled : state.assemble texts = (.ok program, after)) :
    (∃ source, SourceLine.parseAll .xe texts = .ok source ∧
      ∀ (position : Nat) (line : SourceLine) (entry : ListingLine) (found : Instruction),
        (SourceLine.throughEnd source)[position]? = some line →
        after.listing[position]? = some entry →
        line.statement.operation = .machine found → found.format = .three →
        ∃ base flags field,
          (∀ other, SourceLine.BaseAfter after.symbols 0
            ((SourceLine.throughEnd source).take position) other ↔ other = base) ∧
          MachineCode.decode? .xe entry.bytes =
            some (if line.statement.extended then .format4 found.code flags field
              else .format3 found.code flags field, []) ∧
          Reference after.symbols ⟨entry.address, base⟩ line.statement flags field) ∧
    ∀ (symbols : SymbolTable) (site : Site) (found : Instruction) (statement : Statement),
      found.format = .three → site.address + 3 < Address.limit →
      ((∃ encoded, Encode.instruction .xe symbols site found statement = .ok encoded) ↔
        ∀ operand, statement.operand = some operand →
          (statement.extended = true →
            Encode.Encodable symbols (· < 0x100000) 0x100000 operand) ∧
          (statement.extended = false → Encode.Encodable symbols
            (Displacement.InReach · (site.address + 3) site.base) 0x1000 operand)) ∧
      ∀ text address,
        Encode.instruction .xe symbols site found statement = .error (.outOfReach text address) ↔
          statement.extended = false ∧ address = site.address ∧
          ∃ operand, statement.operand = some operand ∧ text = operand.text ∧
            Encode.OutOfReach symbols site operand := by
  refine ⟨?_, fun symbols site found statement format room => ⟨?_, fun text address => ?_⟩⟩
  · obtain ⟨source, lines, sizes, final, assembly⟩ := Assembler.assemble_eq_ok_iff.mp assembled
    rw [machine] at assembly
    refine ⟨source, assembly.parsed, ?_⟩
    intro position line entry found present listed isMachine format
    obtain ⟨base, flags, field, after, decoded, reference⟩ :=
      assembly.reference_at present listed isMachine format
    refine ⟨base, flags, field, ?_, decoded, reference⟩
    intro other
    constructor
    · intro otherAfter
      exact otherAfter.unique after
    · rintro rfl
      exact after
  · exact Encode.exists_instruction_iff format room
  · exact Encode.instruction_eq_outOfReach_iff format room

/-- A label that is too far away for the program counter is reached from the base, which is neither
0 nor the label itself. -/
theorem references_reach_targets_by_base :
    ∃ (program : ObjectProgram) (after : Assembler) (flags : Flags) (field : Nat),
      Assembler.assemble { machine := .xe }
        ["P START 0", " BASE B", "A LDA C,X", " RESB 3000", "B RESW 1", "C RESW 1"] =
          (.ok program, after) ∧
      program.texts = [⟨0, [0x03, 0xC0, 0x03]⟩] ∧
      after.listing[2]? = some ⟨3, 0, "A LDA C,X", "03C003"⟩ ∧
      after.symbols.get? "B" = some 3003 ∧ after.symbols.get? "C" = some 3006 ∧
      MachineCode.decode? .xe [0x03, 0xC0, 0x03] = some (.format3 0x00 flags field, []) ∧
      flags.x = true ∧ flags.b = true ∧ field + 3003 = 3006 := by
  have assembled : Assembler.assemble { machine := .xe }
      ["P START 0", " BASE B", "A LDA C,X", " RESB 3000", "B RESW 1", "C RESW 1"] =
      (.ok ⟨⟨"P", 0, 3009⟩, [⟨0, [0x03, 0xC0, 0x03]⟩], [], 0⟩,
        { machine := .xe, name := "P", start := 0, length := 3009
          symbols := ⟨[("C", 3006), ("B", 3003), ("A", 0), ("P", 0)], by decide⟩
          listing :=
            [⟨1, 0, "P START 0", ""⟩, ⟨2, 0, "BASE B", ""⟩, ⟨3, 0, "A LDA C,X", "03C003"⟩,
              ⟨4, 3, "RESB 3000", ""⟩, ⟨5, 3003, "B RESW 1", ""⟩,
              ⟨6, 3006, "C RESW 1", ""⟩] }) := by
    decide +kernel
  have read : SourceLine.parseAll .xe
      ["P START 0", " BASE B", "A LDA C,X", " RESB 3000", "B RESW 1", "C RESW 1"] =
      .ok [⟨1, "P START 0", ⟨some "P", .directive .start, some ⟨"0"⟩, false⟩⟩,
        ⟨2, " BASE B", ⟨none, .directive .base, some ⟨"B"⟩, false⟩⟩,
        ⟨3, "A LDA C,X", ⟨some "A", .machine ⟨"LDA", 0x00, .three⟩, some ⟨"C,X"⟩, false⟩⟩,
        ⟨4, " RESB 3000", ⟨none, .directive .reserveBytes, some ⟨"3000"⟩, false⟩⟩,
        ⟨5, "B RESW 1", ⟨some "B", .directive .reserveWords, some ⟨"1"⟩, false⟩⟩,
        ⟨6, "C RESW 1", ⟨some "C", .directive .reserveWords, some ⟨"1"⟩, false⟩⟩] := by
    decide +kernel
  obtain ⟨⟨source, parsed, referred⟩, _⟩ := references_reach_targets rfl assembled
  cases parsed.symm.trans read
  obtain ⟨base, flags, field, exactly, decoded, reference⟩ :=
    referred 2 _ _ ⟨"LDA", 0x00, .three⟩ rfl rfl rfl rfl
  obtain rfl : 3003 = base :=
    (exactly 3003).mp ⟨⟨"B"⟩, rfl, .label (by decide +kernel)⟩
  have bytes : ListingLine.bytes ⟨3, 0, "A LDA C,X", "03C003"⟩ = [0x03, 0xC0, 0x03] := by decide
  rw [bytes] at decoded
  obtain ⟨⟨pc, _, _⟩ | ⟨_, set, sum⟩, near⟩ :=
    reference.near ⟨"C,X"⟩ 3006 rfl (by decide +kernel) rfl
  · exact absurd (near.mp pc).2 (by decide)
  · have indexed := reference.shown.indexed_iff.mpr ⟨⟨"C,X"⟩, ['C'], rfl, by decide⟩
    exact ⟨_, _, flags, field, assembled, rfl, rfl, by decide +kernel, by decide +kernel, decoded,
      indexed, set, sum⟩

end SicAssembler
