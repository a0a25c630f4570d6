import SicAssembler.Proofs.Numerals
import SicAssembler.Proofs.References

/-! # Immediate constants by their value

An immediate numeral that is no label is a constant. A constant of twelve bits fits format 3 and one
of twenty bits fits format 4; a larger one is out of reach or has too many bits, and a negative one
is refused as negative. This holds of every number that 64 bits hold with its sign and that is below
`2 ^ 32`. Beyond, a positive constant of up to 63 bits is refused as negative too, and a number that
64 bits do not hold is looked for as a label.
-/

namespace SicAssembler

open Numeral (Denotes)

variable {numeral : String} {value : Int}

namespace Operand

private theorem beforeIndex?_eq_none {text : List Char}
    (last : ∀ c ∈ text.getLast?, c.isDigit = true) :
    beforeIndex? text = none := by
  rw [Option.eq_none_iff_forall_ne_some]
  intro front found
  rw [beforeIndex?_eq_some_iff] at found
  subst found
  exact absurd (last 'X' (by simp)) (by decide)

private theorem key_immediate (denotes : Denotes numeral.toList value) :
    (mk ("#" ++ numeral)).key = numeral := by
  have unmarked : dropMark ("#" ++ numeral).toList = numeral.toList := by
    rw [String.toList_append]
    rfl
  simp only [key, unmarked, beforeIndex?_eq_none denotes.last_isDigit, Option.getD_none,
    denotes.trim_eq, String.ofList_toList]

private theorem isImmediate_immediate (text : String) : (mk ("#" ++ text)).isImmediate = true := by
  rw [isImmediate, String.toList_append]
  rfl

private theorem isIndexed_immediate (denotes : Denotes numeral.toList value) :
    (mk ("#" ++ numeral)).isIndexed = false := by
  have marked : ("#" ++ numeral).toList = '#' :: numeral.toList := String.toList_append
  have last : ∀ c ∈ ('#' :: numeral.toList).getLast?, c.isDigit = true := by
    rw [List.getLast?_cons_of_ne_nil denotes.ne_nil]
    exact denotes.last_isDigit
  rw [isIndexed, marked, beforeIndex?_eq_none last, Option.isSome_none]

private theorem flags_immediate (denotes : Denotes numeral.toList value) :
    Flags.ofOperand (some ⟨"#" ++ numeral⟩) = { i := true } := by
  simp only [Flags.ofOperand, Option.any_some, isIndexed_immediate denotes, Option.map_some, mode,
    isImmediate_immediate, if_true, Option.getD_some]

end Operand

namespace Encode

/-- The first number that is too large for the field: twelve bits, or twenty in format 4. -/
def constantLimit (extended : Bool) : Nat := if extended then 0x100000 else 0x1000

private theorem constantLimit_le (extended : Bool) : constantLimit extended ≤ 0x100000 := by
  cases extended <;> decide

def constantCode (extended : Bool) (code : UInt8) (value : Nat) : Encoded :=
  if extended then { code := .format4 code { i := true, e := true } value }
  else { code := .format3 code { i := true } value }

/-- How a constant that is too large for the field is reported. -/
def constantTooLarge (site : Site) (extended : Bool) (text : String) : Fault :=
  if extended then .invalidOperand text .addressOver20Bits else .outOfReach text site.address

/-- What becomes of an immediate constant, by its value alone. -/
def byValue (site : Site) (found : Instruction) (extended : Bool) (text : String) (value : Int) :
    Except Fault Encoded :=
  if value < 0 then .error (.invalidOperand text .negativeImmediate)
  else if value < constantLimit extended then
    .ok (constantCode extended found.code value.toNat)
  else .error (constantTooLarge site extended text)

variable {symbols : SymbolTable} {site : Site} {found : Instruction} {statement : Statement}

section ByValue

variable {extended : Bool} {text : String}

private theorem exists_byValue_iff :
    (∃ encoded, byValue site found extended text value = .ok encoded) ↔
      0 ≤ value ∧ value < constantLimit extended := by
  unfold byValue
  split
  · next negative =>
    simp only [reduceCtorEq, exists_false, false_iff]
    omega
  · next natural =>
    split
    · next fits => exact iff_of_true ⟨_, rfl⟩ ⟨by omega, fits⟩
    · next large =>
      simp only [reduceCtorEq, exists_false, false_iff]
      exact fun held => large held.2

/-- By their value, only negative constants are reported as negative. -/
theorem byValue_ne_negative (natural : 0 ≤ value) :
    byValue site found extended text value ≠ .error (.invalidOperand text .negativeImmediate) := by
  rw [byValue, if_neg (Int.not_lt.mpr natural)]
  split
  · simp
  · cases extended <;> simp [constantTooLarge]

/-- By its value, no constant is reported as an unknown label. -/
theorem byValue_ne_unresolved (symbol : String) (address : Nat) :
    byValue site found extended text value ≠ .error (.unresolvedSymbol symbol address) := by
  unfold byValue
  split
  · simp
  · split
    · simp
    · cases extended <;> simp [constantTooLarge]

end ByValue

/-- A numeral that is no label is a constant of 32 bits, is reported as a negative one, or is
reported as an unknown label. -/
theorem target_immediate (site : Site) (denotes : Denotes numeral.toList value)
    (unknown : symbols.get? numeral = none) :
    target symbols site ⟨"#" ++ numeral⟩ =
      if 0 ≤ value ∧ value < 0x100000000 then .ok (.constant value.toNat)
      else if -0x8000000000000000 ≤ value ∧ value < 0x8000000000000000 then
        .error (.invalidOperand ("#" ++ numeral) .negativeImmediate)
      else .error (.unresolvedSymbol numeral site.address) := by
  simp only [target, Operand.key_immediate denotes, unknown, Operand.isImmediate_immediate,
    Numeral.readDecimal_of_denotes denotes, Numeral.toWord?]
  by_cases word : 0 ≤ value ∧ value < 0x100000000
  · have held : -0x8000000000000000 ≤ value ∧ value < 0x8000000000000000 := by omega
    simp only [if_pos word, if_pos held]
  · by_cases held : -0x8000000000000000 ≤ value ∧ value < 0x8000000000000000
    · simp only [if_neg word, if_pos held]
    · simp only [if_neg word, if_neg held]

/-- An operand that cannot be resolved is reported, in either format. -/
theorem instruction_of_unresolved {operand : Operand} {fault : Fault}
    (format : found.format = .three) (present : statement.operand = some operand)
    (failed : target symbols site operand = .error fault) :
    instruction .xe symbols site found statement = .error fault := by
  cases extended : statement.extended with
  | true =>
    rw [instruction_of_extended format extended]
    simp only [format4, present, failed]
    rfl
  | false =>
    rw [instruction_of_plain format extended]
    simp only [format3, present, failed]
    rfl

/-- A constant of 32 bits is treated by its value. -/
theorem instruction_of_constant {word : Nat} (format : found.format = .three)
    (present : statement.operand = some ⟨"#" ++ numeral⟩) (denotes : Denotes numeral.toList value)
    (resolved : target symbols site ⟨"#" ++ numeral⟩ = .ok (.constant word)) :
    instruction .xe symbols site found statement =
      byValue site found statement.extended ("#" ++ numeral) word := by
  have flags := Operand.flags_immediate denotes
  have immediate := Operand.isImmediate_immediate numeral
  rw [byValue, if_neg (by omega), Int.toNat_natCast]
  cases extended : statement.extended with
  | true =>
    have fieldRoom : (Operand.mk ("#" ++ numeral)).isImmediate = false →
        site.address + 1 < Address.limit := by simp [immediate]
    rw [instruction_of_extended format extended, format4_of_target present resolved fieldRoom,
      flags, relocation, if_pos immediate]
    by_cases fits : word < constantLimit true
    · have small : ¬0x100000 ≤ (Target.constant word).value := Nat.not_le.mpr fits
      rw [if_neg small, if_pos (Int.ofNat_lt.mpr fits)]
      rfl
    · have large : 0x100000 ≤ (Target.constant word).value := Nat.not_lt.mp fits
      rw [if_pos large, if_neg fun small => fits (Int.ofNat_lt.mp small)]
      rfl
  | false =>
    rw [instruction_of_plain format extended, format3_of_constant present resolved, flags]
    by_cases fits : word < constantLimit false
    · have small : word < 0x1000 := fits
      rw [if_pos small, if_pos (Int.ofNat_lt.mpr fits)]
      rfl
    · have large : ¬word < 0x1000 := fits
      rw [if_neg large, if_neg fun small => fits (Int.ofNat_lt.mp small)]
      rfl

/-- The value alone decides about a constant that is below `2 ^ 32` and that 64 bits hold. Any other
is refused for a reason that its value does not give. -/
theorem instruction_immediate (format : found.format = .three)
    (present : statement.operand = some ⟨"#" ++ numeral⟩) (denotes : Denotes numeral.toList value)
    (unknown : symbols.get? numeral = none) :
    instruction .xe symbols site found statement =
      if -0x8000000000000000 ≤ value ∧ value < 0x100000000 then
        byValue site found statement.extended ("#" ++ numeral) value
      else if 0 ≤ value ∧ value < 0x8000000000000000 then
        .error (.invalidOperand ("#" ++ numeral) .negativeImmediate)
      else .error (.unresolvedSymbol numeral site.address) := by
  have resolved := target_immediate site denotes unknown
  by_cases word : 0 ≤ value ∧ value < 0x100000000
  · rw [if_pos word] at resolved
    rw [instruction_of_constant format present denotes resolved, Int.toNat_of_nonneg word.1,
      if_pos ⟨by omega, word.2⟩]
  · rw [if_neg word] at resolved
    by_cases held : -0x8000000000000000 ≤ value ∧ value < 0x8000000000000000
    · rw [if_pos held] at resolved
      rw [instruction_of_unresolved format present resolved]
      by_cases negative : value < 0
      · rw [if_pos ⟨held.1, by omega⟩, byValue, if_pos negative]
      · rw [if_neg (by omega), if_pos ⟨by omega, held.2⟩]
    · rw [if_neg held] at resolved
      rw [instruction_of_unresolved format present resolved, if_neg (by omega), if_neg (by omega)]

end Encode

/-- An immediate numeral that is no label is encoded exactly if its value fits the field. If it does
not, the value alone decides what is reported exactly for numbers from `-2 ^ 63` to below `2 ^ 32`:
a positive constant of 33 to 63 bits is reported as negative, and one that 64 bits do not hold with
its sign is reported as an unknown label. -/
theorem immediates_are_classified_by_value {symbols : SymbolTable} {site : Site}
    {found : Instruction} {statement : Statement} {numeral : String} {value : Int}
    (format : found.format = .three) (present : statement.operand = some ⟨"#" ++ numeral⟩)
    (denotes : Denotes numeral.toList value) (unknown : symbols.get? numeral = none) :
    ((∃ encoded, Encode.instruction .xe symbols site found statement = .ok encoded) ↔
      0 ≤ value ∧ value < Encode.constantLimit statement.extended) ∧
    (Encode.instruction .xe symbols site found statement =
        Encode.byValue site found statement.extended ("#" ++ numeral) value ↔
      -0x8000000000000000 ≤ value ∧ value < 0x100000000) ∧
    (0x100000000 ≤ value → value < 0x8000000000000000 →
      Encode.instruction .xe symbols site found statement =
        .error (.invalidOperand ("#" ++ numeral) .negativeImmediate)) ∧
    (value < -0x8000000000000000 ∨ 0x8000000000000000 ≤ value →
      Encode.instruction .xe symbols site found statement =
        .error (.unresolvedSymbol numeral site.address)) := by
  have small := Encode.constantLimit_le statement.extended
  rw [Encode.instruction_immediate format present denotes unknown]
  by_cases classified : -0x8000000000000000 ≤ value ∧ value < 0x100000000
  · rw [if_pos classified]
    refine ⟨Encode.exists_byValue_iff, iff_of_true rfl classified, ?_, ?_⟩
    · intro large
      omega
    · intro unheld
      omega
  · rw [if_neg classified]
    by_cases held : 0 ≤ value ∧ value < 0x8000000000000000
    · rw [if_pos held]
      refine ⟨?_, iff_of_false ?_ classified, fun _ _ => rfl, ?_⟩
      · simp only [reduceCtorEq, exists_false, false_iff]
        omega
      · exact (Encode.byValue_ne_negative held.1).symm
      · intro unheld
        omega
    · rw [if_neg held]
      refine ⟨?_, iff_of_false ?_ classified, ?_, fun _ => rfl⟩
      · simp only [reduceCtorEq, exists_false, false_iff]
        omega
      · exact (Encode.byValue_ne_unresolved _ _).symm
      · intro large below
        omega

/-- The largest constant that is still reported for its size. -/
theorem immediates_are_classified_by_value_below_33_bits :
    ∃ statement found,
      Statement.parse .xe "+LDA #4294967295" = .ok (some statement) ∧
      statement.operation = .machine found ∧ found.format = .three ∧
      statement.operand = some ⟨"#" ++ "4294967295"⟩ ∧
      Denotes "4294967295".toList 4294967295 ∧
      SymbolTable.get? ∅ "4294967295" = none ∧
      Encode.instruction .xe ∅ ⟨0, 0⟩ found statement =
        .error (.invalidOperand "#4294967295" .addressOver20Bits) := by
  have parsed : Statement.parse .xe "+LDA #4294967295" =
      .ok (some ⟨none, .machine ⟨"LDA", 0x00, .three⟩, some ⟨"#4294967295"⟩, true⟩) := by
    decide +kernel
  have denotes : Denotes "4294967295".toList 4294967295 := .unsigned (by decide)
  have classified : Encode.instruction .xe ∅ ⟨0, 0⟩ ⟨"LDA", 0x00, .three⟩
        ⟨none, .machine ⟨"LDA", 0x00, .three⟩, some ⟨"#" ++ "4294967295"⟩, true⟩ =
        Encode.byValue ⟨0, 0⟩ ⟨"LDA", 0x00, .three⟩ true ("#" ++ "4294967295") 4294967295 ↔ _ :=
    (immediates_are_classified_by_value rfl rfl denotes rfl).2.1
  exact ⟨_, _, parsed, rfl, rfl, rfl, denotes, rfl, classified.mpr (by decide)⟩

/-- A positive constant of 33 bits is refused as a negative one. -/
theorem large_immediate_is_reported_as_negative :
    ∃ statement found,
      Statement.parse .xe "LDA #4294967296" = .ok (some statement) ∧
      statement.operation = .machine found ∧ found.format = .three ∧
      statement.operand = some ⟨"#" ++ "4294967296"⟩ ∧
      Denotes "4294967296".toList 4294967296 ∧
      SymbolTable.get? ∅ "4294967296" = none ∧
      Encode.instruction .xe ∅ ⟨0, 0⟩ found statement =
        .error (.invalidOperand "#4294967296" .negativeImmediate) ∧
      Encode.byValue ⟨0, 0⟩ found statement.extended "#4294967296" 4294967296 =
        .error (.outOfReach "#4294967296" 0) := by
  have parsed : Statement.parse .xe "LDA #4294967296" =
      .ok (some ⟨none, .machine ⟨"LDA", 0x00, .three⟩, some ⟨"#4294967296"⟩, false⟩) := by
    decide +kernel
  have denotes : Denotes "4294967296".toList 4294967296 := .unsigned (by decide)
  exact ⟨_, _, parsed, rfl, rfl, rfl, denotes, rfl, by decide +kernel, rfl⟩

end SicAssembler
