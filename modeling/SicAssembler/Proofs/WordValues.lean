import Mathlib.Data.List.Induction
import Mathlib.Data.Nat.Digits.Defs
import SicAssembler.Proofs.Assembly
import SicAssembler.Proofs.Grammar
import SicAssembler.Proofs.Numerals

/-! # What `WORD` stores

A decimal numeral has the value of its digits by place, and reading returns that value whenever 64
bits hold it. `WORD` takes the numbers that 24 bits hold with or without a sign, and stores them in
three bytes modulo `2 ^ 24`. So a number written in decimal is stored in two's complement.
-/

namespace SicAssembler

open Numeral (Denotes)

namespace Numeral

/-- The value of digits is that of their places, the last of which counts ones. -/
theorem decimalValue_eq_ofDigits (digits : List Char) :
    decimalValue digits = Nat.ofDigits 10 (digits.reverse.map fun c => c.toNat - '0'.toNat) := by
  induction digits using List.reverseRecOn with
  | nil => rfl
  | append_singleton front c ih =>
    rw [List.reverse_append, List.reverse_singleton, List.singleton_append, List.map_cons,
      Nat.ofDigits_cons, ← ih, decimalValue, Nat.ofDigitChars_append, Nat.ofDigitChars_cons,
      Nat.ofDigitChars_nil, Nat.add_comm]
    rfl

private theorem isDecimal_toDigits (n : Nat) : IsDecimal (Nat.toDigits 10 n) :=
  ⟨Nat.toDigits_ne_nil, fun _ digit => Nat.isDigit_of_mem_toDigits (by decide) (by decide) digit⟩

private theorem decimalValue_toDigits (n : Nat) : decimalValue (Nat.toDigits 10 n) = n :=
  Nat.ofDigitChars_ten_toDigits

/-- The decimal text of a number denotes it. -/
theorem denotes_toString (value : Int) : Denotes (toString value).toList value := by
  cases value with
  | ofNat n =>
    have denotes := Denotes.unsigned (isDecimal_toDigits n)
    rw [decimalValue_toDigits] at denotes
    rwa [Int.toString_eq_repr, Int.repr, Nat.toList_repr]
  | negSucc n =>
    have denotes := Denotes.minus (isDecimal_toDigits (n + 1))
    rw [decimalValue_toDigits] at denotes
    have written : (toString (Int.negSucc n)).toList = '-' :: Nat.toDigits 10 (n + 1) := by
      rw [Int.toString_eq_repr, Int.repr, String.toList_append, Nat.toList_repr]
      rfl
    rwa [written]

/-- Upper case does not change a numeral. -/
theorem Denotes.capital {text : List Char} {value : Int} (denotes : Denotes text value) :
    ∀ c ∈ text, c.toUpper = c := by
  intro c member
  have digit_kept {d : Char} (digit : d.isDigit = true) : d.toUpper = d := by
    obtain ⟨low, high⟩ := (isDigit_iff d).mp digit
    rcases Text.toUpper_cases d with same | ⟨_, _, _⟩
    · exact same
    · omega
  obtain ⟨digits, ⟨_, decimal⟩, rfl | ⟨sign, isSign, rfl⟩⟩ := denotes.exists_digits
  · exact digit_kept (decimal c member)
  · rcases List.mem_cons.mp member with rfl | inside
    · rcases isSign with rfl | rfl <;> decide
    · exact digit_kept (decimal c inside)

end Numeral

namespace BigEndian

/-- Bytes are determined by the number that they stand for. -/
theorem encode_decode (bytes : List UInt8) : encode bytes.length (decode bytes) = bytes := by
  induction bytes using List.reverseRecOn with
  | nil => rfl
  | append_singleton front byte ih =>
    have small := byte.toNat_lt
    have high : (256 * decode front + byte.toNat) / 256 = decode front := by omega
    have low : (256 * decode front + byte.toNat) % 256 = byte.toNat := by omega
    rw [List.length_append, List.length_singleton, decode_append_singleton, encode, high, low, ih,
      UInt8.ofNat_toNat]

end BigEndian

namespace Statement

/-- The number of `WORD` is that of its operand, if 24 bits hold it with or without a sign. -/
theorem wordValue_eq_ok_iff {statement : Statement} {value : Int} :
    statement.wordValue = .ok value ↔
      ∃ operand, statement.operand = some operand ∧
        Numeral.readDecimal operand.text = .ok value ∧ -0x800000 ≤ value ∧ value < 0x1000000 := by
  unfold wordValue required
  cases statement.operand with
  | none => simp [bind, Except.bind]
  | some operand =>
    simp only [bind, Except.bind, Option.some.injEq, exists_eq_left']
    cases Numeral.readDecimal operand.text with
    | error failure => simp [Except.mapError]
    | ok number =>
      simp only [Except.mapError, Except.ok.injEq]
      by_cases fits : -0x800000 ≤ number ∧ number < 0x1000000
      · rw [if_pos fits, Except.ok.injEq]
        constructor
        · rintro rfl
          exact ⟨rfl, fits⟩
        · exact And.left
      · rw [if_neg fits]
        simp only [reduceCtorEq, false_iff]
        rintro ⟨rfl, bounds⟩
        exact fits bounds

end Statement

/-- Three bytes that stand for a number modulo `2 ^ 24`. -/
structure Stores (bytes : List UInt8) (value : Int) : Prop where
  length_eq : bytes.length = 3
  decode_eq : (BigEndian.decode bytes : Int) = value % 0x1000000

namespace Stores

variable {bytes : List UInt8} {value : Int}

private theorem iff_eq_encode :
    Stores bytes value ↔ bytes = BigEndian.encode 3 (value % 0x1000000).toNat := by
  have natural : 0 ≤ value % 0x1000000 := Int.emod_nonneg value (by decide)
  have small : value % 0x1000000 < 0x1000000 := Int.emod_lt_of_pos value (by decide)
  constructor
  · rintro ⟨length, decoded⟩
    rw [← decoded, Int.toNat_natCast, ← length, BigEndian.encode_decode]
  · rintro rfl
    refine ⟨BigEndian.length_encode 3 _, ?_⟩
    have span : BigEndian.span 3 = 0x1000000 := rfl
    rw [BigEndian.decode_encode, span]
    omega

/-- The bits are those of the number in two's complement. -/
theorem bits_eq (stores : Stores bytes value) :
    BitVec.ofNat 24 (BigEndian.decode bytes) = BitVec.ofInt 24 value := by
  have decoded := stores.decode_eq
  apply BitVec.eq_of_toNat_eq
  rw [BitVec.toNat_ofNat, BitVec.toNat_ofInt]
  omega

end Stores

namespace Statement

variable {machine : Machine} {symbols : SymbolTable} {site : Site} {statement : Statement}

/-- A `WORD` statement is encoded exactly if its operand is a number of 24 bits, and then to the
three bytes that store it. -/
theorem generate_word_eq_ok_iff (isWord : statement.operation = .directive .word)
    {generated : Generated} :
    statement.generate machine symbols site = .ok generated ↔
      ∃ operand value, statement.operand = some operand ∧
        Numeral.readDecimal operand.text = .ok value ∧ -0x800000 ≤ value ∧ value < 0x1000000 ∧
        Stores generated.bytes value ∧ generated = ⟨generated.bytes, none, site.base⟩ := by
  have unfolded : statement.generate machine symbols site =
      (statement.wordValue).bind fun value =>
        .ok ⟨BigEndian.encode 3 (value % 0x1000000).toNat, none, site.base⟩ := by
    simp only [generate, isWord, Encode.word, bind, pure, Except.bind, Except.pure]
    cases statement.wordValue <;> rfl
  rw [unfolded]
  constructor
  · intro made
    obtain ⟨value, valued, same⟩ := exists_of_bind_eq_ok made
    obtain ⟨operand, present, read, low, high⟩ := wordValue_eq_ok_iff.mp valued
    cases same
    exact ⟨operand, value, present, read, low, high, Stores.iff_eq_encode.mpr rfl, rfl⟩
  · rintro ⟨operand, value, present, read, low, high, stores, same⟩
    rw [wordValue_eq_ok_iff.mpr ⟨operand, present, read, low, high⟩, same,
      Stores.iff_eq_encode.mp stores]
    rfl

def ofWord (value : Int) : Statement :=
  ⟨none, .directive .word, some ⟨toString value⟩, false⟩

/-- A number behind `WORD` is the operand as it is written. -/
theorem parse_word (machine : Machine) (value : Int) :
    parse machine ("WORD " ++ toString value) = .ok (some (ofWord value)) := by
  have denotes := Numeral.denotes_toString value
  have member : .directive .word ∈ machine.operations := by
    cases machine <;> decide
  have mnemonic : Directive.word.mnemonic ++ " " = "WORD " := by decide
  rw [← mnemonic]
  exact parse_directive_of_plain member denotes.ne_nil denotes.visible denotes.capital

private theorem generate_ofWord {value : Int} (low : -0x800000 ≤ value) (high : value < 0x1000000)
    {bytes : List UInt8} (stores : Stores bytes value) :
    (ofWord value).generate machine symbols site = .ok ⟨bytes, none, site.base⟩ := by
  have held : -0x8000000000000000 ≤ value ∧ value < 0x8000000000000000 := by omega
  have read : Numeral.readDecimal (toString value) = .ok value := by
    rw [Numeral.readDecimal_of_denotes (Numeral.denotes_toString value), if_pos held]
  exact (generate_word_eq_ok_iff rfl).mpr ⟨_, value, rfl, read, low, high, stores, rfl⟩

end Statement

section Program

variable {machine : Machine} {value : Int}

def wordLine (value : Int) : ObjectLine where
  source := ⟨1, String.ofList (Text.trimEnd ("WORD " ++ toString value).toList), .ofWord value⟩
  address := 0
  bytes := BigEndian.encode 3 (value % 0x1000000).toNat
  modification := none

private theorem stores_wordLine (value : Int) : Stores (wordLine value).bytes value :=
  Stores.iff_eq_encode.mpr rfl

private theorem made_wordLine (low : -0x800000 ≤ value) (high : value < 0x1000000) :
    ObjectLine.Made machine ∅ ⟨0, 0⟩ (wordLine value) 3 ⟨3, 0⟩ where
  size_eq := rfl
  address_eq := rfl
  generated := Statement.generate_ofWord low high (stores_wordLine value)
  next_eq := rfl
  bounded := by decide

private theorem assembly_wordLine (low : -0x800000 ≤ value) (high : value < 0x1000000) :
    Assembly machine ["WORD " ++ toString value]
      ⟨⟨"", 0, 3⟩, [⟨0, (wordLine value).bytes⟩], [], 0⟩
      { machine := machine, length := 3, listing := [.ofObjectLine (wordLine value)] }
      [(wordLine value).source] [wordLine value] [3] ⟨3, 0⟩ where
  parsed := by
    simp only [SourceLine.parseAll, SourceLine.parseFrom_cons, Statement.parse_word]
    rfl
  machine_eq := rfl
  placed := rfl
  sources_eq := rfl
  trail := .cons (made_wordLine low high) (.nil _)
  listing_eq := rfl
  short := by
    intro line member _
    obtain rfl := List.mem_singleton.mp member
    rw [(stores_wordLine value).length_eq]
    exact (by decide : 0 + 3 < Address.limit)
  program_eq := rfl

/-- A number that 24 bits hold is assembled to the three bytes that store it. -/
theorem assemble_word (machine : Machine) (low : -0x800000 ≤ value) (high : value < 0x1000000) :
    assemble machine ["WORD " ++ toString value] =
      .ok ⟨⟨"", 0, 3⟩, [⟨0, (wordLine value).bytes⟩], [], 0⟩ := by
  have assembled : Assembler.assemble { machine := machine } ["WORD " ++ toString value] =
      (.ok _, _) := Assembler.assemble_eq_ok_iff.mpr ⟨_, _, _, _, assembly_wordLine low high⟩
  rw [assemble, assembled]

end Program

/-- Decimal operands are read and stored exactly. The digits of a numeral have the value of their
places, and a text is read if and only if it is a numeral, with blank characters around it or not,
whose value 64 bits hold; a count has to fit into 32 bits without a sign. A `WORD` statement is
encoded if and only if its operand is read as a number from `-2 ^ 23` to below `2 ^ 24`, and its
three bytes are that number modulo `2 ^ 24`. So every such number, written in decimal behind `WORD`,
is stored in two's complement, at any place of any program and in a program of its own. -/
theorem decimals_are_stored_exactly :
    (∀ digits, Numeral.decimalValue digits =
      Nat.ofDigits 10 (digits.reverse.map fun c => c.toNat - '0'.toNat)) ∧
    (∀ text value, Numeral.readDecimal text = .ok value ↔
      Denotes (Text.trim text.toList) value ∧ -2 ^ 63 ≤ value ∧ value < 2 ^ 63) ∧
    (∀ text count, Numeral.readCount text = .ok count ↔
      Numeral.readDecimal text = .ok (count : Int) ∧ count < 2 ^ 32) ∧
    (∀ machine symbols site (statement : Statement) generated,
      statement.operation = .directive .word →
      (statement.generate machine symbols site = .ok generated ↔
        ∃ operand value, statement.operand = some operand ∧
          Numeral.readDecimal operand.text = .ok value ∧ -2 ^ 23 ≤ value ∧ value < 2 ^ 24 ∧
          Stores generated.bytes value ∧ generated = ⟨generated.bytes, none, site.base⟩)) ∧
    ∀ machine (value : Int), -2 ^ 23 ≤ value → value < 2 ^ 24 →
      ∃ statement bytes,
        Statement.parse machine ("WORD " ++ toString value) = .ok (some statement) ∧
        (∀ symbols site, statement.generate machine symbols site = .ok ⟨bytes, none, site.base⟩) ∧
        assemble machine ["WORD " ++ toString value] = .ok ⟨⟨"", 0, 3⟩, [⟨0, bytes⟩], [], 0⟩ ∧
        BitVec.ofNat 24 (BigEndian.decode bytes) = BitVec.ofInt 24 value := by
  refine ⟨Numeral.decimalValue_eq_ofDigits, ?_, ?_, ?_, ?_⟩
  · intro text value
    exact Numeral.readDecimal_eq_ok_iff
  · intro text count
    exact Numeral.readCount_eq_ok_iff
  · intro machine symbols site statement generated isWord
    exact Statement.generate_word_eq_ok_iff isWord
  · intro machine value low high
    have stores := stores_wordLine value
    refine ⟨_, _, Statement.parse_word machine value, ?_, assemble_word machine low high,
      stores.bits_eq⟩
    intro symbols site
    exact Statement.generate_ofWord low high stores

/-- The least number of `WORD`, and one of 64 bits that is read but not stored. -/
theorem decimals_are_stored_exactly_at_limits :
    (∃ bytes, assemble .sic ["WORD -8388608"] = .ok ⟨⟨"", 0, 3⟩, [⟨0, bytes⟩], [], 0⟩ ∧
      BitVec.ofNat 24 (BigEndian.decode bytes) = BitVec.ofInt 24 (-8388608)) ∧
    Numeral.readDecimal " -0009223372036854775808" = .ok (-9223372036854775808) := by
  obtain ⟨_, read, _, _, stored⟩ := decimals_are_stored_exactly
  constructor
  · obtain ⟨_, bytes, _, _, assembled, bits⟩ := stored .sic (-8388608) (by decide) (by decide)
    exact ⟨bytes, assembled, bits⟩
  · exact (read _ _).mpr ⟨.minus (by decide), by decide, by decide⟩

end SicAssembler
