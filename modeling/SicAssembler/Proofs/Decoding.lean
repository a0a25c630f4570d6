import Mathlib.Data.List.Nodup
import SicAssembler.ObjectCode.MachineCode

/-! # Object code can be read back

The bytes of an instruction determine its code and its operand part, whatever stands behind them. At
least one of the flags `n` and `i` is set in generated code of format 3 and 4, so there the first
byte is never that of an instruction of format 1 or 2.
-/

namespace SicAssembler

/-- The low bits of every code are free, also those of formats 1 and 2. -/
theorem Machine.code_mod_four_of_mem_xe :
    ∀ instruction ∈ Machine.xe.instructions, instruction.code.toNat % 4 = 0 := by
  decide +kernel

namespace MachineCode

private theorem bareCode_eq {first code : UInt8} {marks : Nat} (aligned : code.toNat % 4 = 0)
    (few : marks < 4) (sum : first.toNat = code.toNat + marks) : bareCode first = code := by
  have cleared : first.toNat / 4 * 4 = code.toNat := by omega
  rw [bareCode, cleared, UInt8.ofNat_toNat]

private theorem instruction?_eq_none {first : UInt8} (marked : first.toNat % 4 ≠ 0) :
    instruction? .xe first = none := by
  apply List.find?_eq_none.mpr
  intro instruction member same
  have equal : instruction.code = first := by simpa using same
  exact marked (equal ▸ Machine.code_mod_four_of_mem_xe instruction member)

/-- An instruction of the catalog is found by its code. -/
theorem instruction?_code {machine : Machine} {found : Instruction}
    (present : found ∈ machine.instructions) : instruction? machine found.code = some found := by
  have known : (instruction? machine found.code).isSome :=
    List.find?_isSome.mpr ⟨found, present, beq_self_eq_true _⟩
  obtain ⟨other, isOther⟩ := Option.isSome_iff_exists.mp known
  have same : other.code = found.code := by simpa using List.find?_some isOther
  rw [isOther, List.inj_on_of_nodup_map (nodup_codes machine) (List.mem_of_find?_eq_some isOther)
    present same]

/-- A first byte that carries `n` or `i` belongs to format 3 or 4. -/
theorem decode?_of_marked {found : Instruction} {first : UInt8} {marks : Nat}
    (present : found ∈ Machine.xe.instructions) (few : marks < 4) (marked : marks ≠ 0)
    (sum : first.toNat = found.code.toNat + marks) (rest : List UInt8) :
    decode? .xe (first :: rest) = decodeFlagged? first rest := by
  have aligned := Machine.code_mod_four_of_mem_xe found present
  have bare := bareCode_eq aligned few sum
  have known := instruction?_code present
  have unknown : instruction? .xe first = none := instruction?_eq_none (by omega)
  simp only [decode?, decodeXe?, unknown, bare, known, Option.bind_some]

section Flagged

variable {code first second third : UInt8} {flags : Flags} {field : Nat}

/-- The flags are in the two low bits of the first byte and the four high bits of the second. -/
theorem flags_of_bytes (aligned : code.toNat % 4 = 0)
    (firstEq : first.toNat = code.toNat + flags.ni)
    (secondEq : second.toNat / 16 = flags.xbpe) :
    Flags.ofBits (first.toNat % 4) (second.toNat / 16) = flags := by
  have few := flags.ni_lt
  have low : first.toNat % 4 = flags.ni := by omega
  rw [low, secondEq, Flags.ofBits_ni_xbpe]

private theorem decodeFlagged?_plain (aligned : code.toNat % 4 = 0) (plain : flags.e = false)
    (firstEq : first.toNat = code.toNat + flags.ni) (secondEq : second.toNat / 16 = flags.xbpe)
    (fieldEq : second.toNat % 16 * 0x100 + third.toNat = field) (rest : List UInt8) :
    decodeFlagged? first (second :: third :: rest) = some (.format3 code flags field, rest) := by
  simp only [decodeFlagged?, flags_of_bytes aligned firstEq secondEq, plain, fieldEq,
    bareCode_eq aligned flags.ni_lt firstEq, Bool.false_eq_true, if_false]

private theorem decodeFlagged?_extended {fourth : UInt8} (aligned : code.toNat % 4 = 0)
    (extended : flags.e = true) (firstEq : first.toNat = code.toNat + flags.ni)
    (secondEq : second.toNat / 16 = flags.xbpe)
    (fieldEq : (second.toNat % 16 * 0x100 + third.toNat) * 0x100 + fourth.toNat = field)
    (rest : List UInt8) :
    decodeFlagged? first (second :: third :: fourth :: rest) =
      some (.format4 code flags field, rest) := by
  simp only [decodeFlagged?, flags_of_bytes aligned firstEq secondEq, extended, fieldEq,
    bareCode_eq aligned flags.ni_lt firstEq, if_true]

end Flagged

variable {found : Instruction} {flags : Flags} {field : Nat}

/-- Format 1 is read back from its byte. -/
theorem decode?_format1 (present : found ∈ Machine.xe.instructions) (format : found.format = .one)
    (rest : List UInt8) :
    decode? .xe ((format1 found.code).bytes ++ rest) = some (.format1 found.code, rest) := by
  have byte := found.code.toNat_lt
  have first : UInt8.ofNat (found.code.toNat % 256) = found.code := by
    rw [Nat.mod_eq_of_lt byte, UInt8.ofNat_toNat]
  have known := instruction?_code present
  obtain ⟨mnemonic, code, shape⟩ := found
  cases format
  simp only [bytes, size, value, BigEndian.encode, List.nil_append, List.cons_append, first,
    decode?, decodeXe?, known]

/-- Format 2 is read back from its two bytes. -/
theorem decode?_format2 (present : found ∈ Machine.xe.instructions) (format : found.format = .two)
    {high low : Nat} (highSmall : high < 16) (lowSmall : low < 16) (rest : List UInt8) :
    decode? .xe ((format2 found.code high low).bytes ++ rest) =
      some (.format2 found.code high low, rest) := by
  have byte := found.code.toNat_lt
  have first : UInt8.ofNat ((found.code.toNat * 0x100 + high * 0x10 + low) / 256 % 256) =
      found.code := by
    rw [show (found.code.toNat * 0x100 + high * 0x10 + low) / 256 % 256 = found.code.toNat by omega,
      UInt8.ofNat_toNat]
  have second : (UInt8.ofNat ((found.code.toNat * 0x100 + high * 0x10 + low) % 256)).toNat =
      high * 16 + low := by
    rw [UInt8.toNat_ofNat']
    omega
  have known := instruction?_code present
  obtain ⟨mnemonic, code, shape⟩ := found
  cases format
  simp only [bytes, size, value, BigEndian.encode, List.nil_append, List.cons_append, first, second,
    decode?, decodeXe?, known]
  rw [show (high * 16 + low) / 16 = high by omega, show (high * 16 + low) % 16 = low by omega]

/-- A SIC instruction is read back from its three bytes. -/
theorem decode?_absolute (present : found ∈ Machine.sic.instructions) (indexed : Bool)
    {address : Nat} (small : address < 0x8000) (rest : List UInt8) :
    decode? .sic ((absolute found.code indexed address).bytes ++ rest) =
      some (.absolute found.code indexed address, rest) := by
  have byte := found.code.toNat_lt
  have bit : indexed.toNat ≤ 1 := indexed.toNat_le
  have word : (absolute found.code indexed address).value =
      found.code.toNat * 0x10000 + indexed.toNat * 0x8000 + address := rfl
  have first : UInt8.ofNat ((absolute found.code indexed address).value / 256 / 256 % 256) =
      found.code := by
    rw [word, show (found.code.toNat * 0x10000 + indexed.toNat * 0x8000 + address) / 256 / 256 %
      256 = found.code.toNat by omega, UInt8.ofNat_toNat]
  have second :
      (UInt8.ofNat ((absolute found.code indexed address).value / 256 % 256)).toNat =
        indexed.toNat * 128 + address / 256 := by
    rw [UInt8.toNat_ofNat', word]
    omega
  have third : (UInt8.ofNat ((absolute found.code indexed address).value % 256)).toNat =
      address % 256 := by
    rw [UInt8.toNat_ofNat', word]
    omega
  have field : (indexed.toNat * 128 + address / 256) % 128 * 0x100 + address % 256 = address := by
    omega
  have mark : decide (128 ≤ indexed.toNat * 128 + address / 256) = indexed := by
    cases indexed with
    | false => simpa using Nat.div_lt_of_lt_mul small
    | true => simp
  simp only [bytes, size, BigEndian.encode, List.nil_append, List.cons_append, first, decode?,
    decodeSic?, instruction?_code present, Option.map_some, second, third, field, mark]

/-- Format 3 is read back from its three bytes. -/
theorem decode?_format3 (present : found ∈ Machine.xe.instructions) (marked : flags.ni ≠ 0)
    (plain : flags.e = false) (small : field < 0x1000) (rest : List UInt8) :
    decode? .xe ((format3 found.code flags field).bytes ++ rest) =
      some (.format3 found.code flags field, rest) := by
  have aligned := Machine.code_mod_four_of_mem_xe found present
  have byte := found.code.toNat_lt
  have few := flags.ni_lt
  have four := flags.xbpe_lt
  simp only [bytes, size, value, BigEndian.encode, List.nil_append, List.cons_append]
  rw [decode?_of_marked present few marked]
  · apply decodeFlagged?_plain aligned plain
    · rw [UInt8.toNat_ofNat']
      omega
    · rw [UInt8.toNat_ofNat']
      omega
    · rw [UInt8.toNat_ofNat', UInt8.toNat_ofNat']
      omega
  · rw [UInt8.toNat_ofNat']
    omega

/-- Format 4 is read back from its four bytes. -/
theorem decode?_format4 (present : found ∈ Machine.xe.instructions) (marked : flags.ni ≠ 0)
    (extended : flags.e = true) (small : field < 0x100000) (rest : List UInt8) :
    decode? .xe ((format4 found.code flags field).bytes ++ rest) =
      some (.format4 found.code flags field, rest) := by
  have aligned := Machine.code_mod_four_of_mem_xe found present
  have byte := found.code.toNat_lt
  have few := flags.ni_lt
  have four := flags.xbpe_lt
  simp only [bytes, size, value, BigEndian.encode, List.nil_append, List.cons_append]
  rw [decode?_of_marked present few marked]
  · apply decodeFlagged?_extended aligned extended
    · rw [UInt8.toNat_ofNat']
      omega
    · rw [UInt8.toNat_ofNat']
      omega
    · rw [UInt8.toNat_ofNat', UInt8.toNat_ofNat', UInt8.toNat_ofNat']
      omega
  · rw [UInt8.toNat_ofNat']
    omega

end MachineCode

end SicAssembler
