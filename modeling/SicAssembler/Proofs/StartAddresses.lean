import Mathlib.Data.List.Induction
import Mathlib.Data.Nat.Digits.Defs
import SicAssembler.Proofs.Literals
import SicAssembler.Proofs.RecordLines

/-! # Start addresses

A start address is a bare hexadecimal number below `2 ^ 32`: digits, behind a mark `0X` or `0x` or
behind none. Reading returns the value of the digits by place, with any number of leading zeros. It
takes one text more than that: a single `+` may stand between the mark and the digits. The address
that the header and the end record show is a bare number, so a program whose `START` is given that
text begins at the same address.
-/

namespace SicAssembler

namespace Numeral

variable {mark sign digits rest text : List Char} {value : Nat}

/-- The value of digits is that of their places, the last of which counts ones. -/
theorem hexValue_eq_ofDigits (digits : List Char) :
    hexValue digits = Nat.ofDigits 16 (digits.reverse.map hexDigitValue) := by
  induction digits using List.reverseRecOn with
  | nil => rfl
  | append_singleton front c ih =>
    rw [List.reverse_append, List.reverse_singleton, List.singleton_append, List.map_cons,
      Nat.ofDigits_cons, ← ih, hexValue_append_singleton, Nat.add_comm]

def IsHex (digits : List Char) : Prop := digits ≠ [] ∧ ∀ c ∈ digits, isHexDigit c = true

private theorem isHex_iff : IsHex digits ↔ (!digits.isEmpty && digits.all isHexDigit) = true := by
  simp [IsHex]

instance (digits : List Char) : Decidable (IsHex digits) := decidable_of_iff _ isHex_iff.symm

private theorem IsHex.not_mem {c : Char} (row : IsHex digits) (other : isHexDigit c = false) :
    c ∉ digits := by
  intro member
  rw [row.2 c member] at other
  contradiction

/-- The marks of a hexadecimal number, which may also have none. -/
def hexMarks : List (List Char) := [[], ['0', 'X'], ['0', 'x']]

/-- A mark or none, a given sign, and digits, with the value of the digits. -/
inductive SignedHex (sign : List Char) : List Char → Nat → Prop
  | intro {mark digits : List Char} (marked : mark ∈ hexMarks) (row : IsHex digits) :
      SignedHex sign (mark ++ (sign ++ digits)) (hexValue digits)

def BareHex : List Char → Nat → Prop := SignedHex []

/-- A hexadecimal number with a `+` between its mark and its digits. -/
def PlusHex : List Char → Nat → Prop := SignedHex ['+']

private theorem exists_mark (text : List Char) :
    ∃ mark ∈ hexMarks, text = mark ++ dropHexMark text := by
  unfold dropHexMark
  split
  · exact ⟨['0', 'X'], by decide, rfl⟩
  · exact ⟨['0', 'x'], by decide, rfl⟩
  · exact ⟨[], by decide, rfl⟩

/-- Only one mark is removed, and what follows it is no mark if it holds no `X`. -/
theorem dropHexMark_append (marked : mark ∈ hexMarks) (upper : 'X' ∉ rest) (lower : 'x' ∉ rest) :
    dropHexMark (mark ++ rest) = rest := by
  simp only [hexMarks, List.mem_cons, List.not_mem_nil, or_false] at marked
  rcases marked with rfl | rfl | rfl
  · rw [List.nil_append]
    unfold dropHexMark
    split
    · simp at upper
    · simp at lower
    · rfl
  · rfl
  · rfl

private theorem exists_sign (text : List Char) :
    ∃ sign, (sign = [] ∨ sign = ['+']) ∧ text = sign ++ dropPlus text := by
  unfold dropPlus
  split
  · exact ⟨['+'], .inr rfl, rfl⟩
  · exact ⟨[], .inl rfl, rfl⟩

private theorem dropPlus_append (signed : sign = [] ∨ sign = ['+']) (unsigned : '+' ∉ digits) :
    dropPlus (sign ++ digits) = digits := by
  rcases signed with rfl | rfl
  · rw [List.nil_append]
    unfold dropPlus
    split
    · simp at unsigned
    · rfl
  · rfl

/-- A number with or without a `+` is read exactly if 32 bits hold its value. -/
theorem readHex_of_signedHex {text : String} (signed : sign = [] ∨ sign = ['+'])
    (denotes : SignedHex sign (Text.trim text.toList) value) :
    readHex text =
      if value < 0x100000000 then .ok value else .error (.invalidHex text) := by
  generalize trimmed : Text.trim text.toList = written at denotes
  obtain @⟨mark, digits, marked, row⟩ := denotes
  -- Behind the mark there is neither an `X` nor a second `+`, so both removals stop at the digits.
  have free {c : Char} (noSign : c ≠ '+') (other : isHexDigit c = false) : c ∉ sign ++ digits := by
    rw [List.mem_append, not_or]
    refine ⟨?_, row.not_mem other⟩
    rcases signed with rfl | rfl
    · simp
    · simpa using noSign
  have unmarked : dropHexMark (mark ++ (sign ++ digits)) = sign ++ digits :=
    dropHexMark_append marked (free (by decide) (by decide)) (free (by decide) (by decide))
  have unsigned : dropPlus (sign ++ digits) = digits :=
    dropPlus_append signed (row.not_mem (by decide))
  have present : (sign ++ digits).isEmpty = false := by
    simp [row.1]
  simp only [readHex, trimmed, unmarked, unsigned, present, isHex_iff.mp row, Bool.true_and,
    decide_eq_true_eq, Bool.false_eq_true, if_false]

/-- A text is read exactly if, without the blank characters around it, it is a number below
`2 ^ 32` that is bare but for one `+`. -/
theorem readHex_eq_ok_iff {text : String} :
    readHex text = .ok value ↔
      (BareHex (Text.trim text.toList) value ∨ PlusHex (Text.trim text.toList) value) ∧
        value < 0x100000000 := by
  constructor
  · intro read
    obtain ⟨mark, marked, whole⟩ := exists_mark (Text.trim text.toList)
    obtain ⟨sign, signed, behind⟩ := exists_sign (dropHexMark (Text.trim text.toList))
    simp only [readHex] at read
    split at read
    · contradiction
    · split at read
      · next valid =>
        cases read
        rw [Bool.and_eq_true, decide_eq_true_eq, ← isHex_iff] at valid
        obtain ⟨row, small⟩ := valid
        have denotes : SignedHex sign (mark ++ (sign ++ _)) _ := .intro marked row
        rw [← behind, ← whole] at denotes
        refine ⟨?_, small⟩
        rcases signed with rfl | rfl
        · exact .inl denotes
        · exact .inr denotes
      · contradiction
  · rintro ⟨bare | plus, small⟩
    · rw [readHex_of_signedHex (.inl rfl) bare, if_pos small]
    · rw [readHex_of_signedHex (.inr rfl) plus, if_pos small]

private theorem PlusHex.plus_mem (plus : PlusHex text value) : '+' ∈ text := by
  obtain ⟨marked, row⟩ := plus
  simp

private theorem BareHex.plus_not_mem (bare : BareHex text value) : '+' ∉ text := by
  obtain @⟨mark, digits, marked, row⟩ := bare
  have unmarked : ∀ mark ∈ hexMarks, '+' ∉ mark := by decide
  rw [List.nil_append, List.mem_append, not_or]
  exact ⟨unmarked mark marked, row.not_mem (by decide)⟩

/-- At a text, only bare numbers are read if and only if the text is no number with a `+`. -/
theorem readHex_bare_iff (text : String) :
    (∀ value, readHex text = .ok value ↔
        BareHex (Text.trim text.toList) value ∧ value < 0x100000000) ↔
      ¬∃ value, PlusHex (Text.trim text.toList) value ∧ value < 0x100000000 := by
  constructor
  · rintro exactly ⟨value, plus, small⟩
    have read := readHex_eq_ok_iff.mpr ⟨.inr plus, small⟩
    have bare := ((exactly value).mp read).1
    exact bare.plus_not_mem plus.plus_mem
  · intro unsigned value
    rw [readHex_eq_ok_iff]
    constructor
    · rintro ⟨bare | plus, small⟩
      · exact ⟨bare, small⟩
      · exact absurd ⟨value, plus, small⟩ unsigned
    · rintro ⟨bare, small⟩
      exact ⟨.inl bare, small⟩

private theorem isBlank_of_isHexDigit {c : Char} (digit : isHexDigit c = true) :
    Text.isBlank c = false := by
  rw [isHexDigit_iff] at digit
  exact Text.isBlank_eq_false (by omega) (by omega)

end Numeral

namespace Text

variable (width n : Nat)

private theorem isHex_hexColumn : Numeral.IsHex (hexColumn width n).toList :=
  ⟨hexColumn_ne_nil width n, List.all_eq_true.mp (all_isHexDigit_hexColumn width n)⟩

private theorem visible_hexColumn : ∀ c ∈ (hexColumn width n).toList, isBlank c = false := by
  intro c member
  apply Numeral.isBlank_of_isHexDigit
  exact (isHex_hexColumn width n).2 c member

/-- Columns are printed in upper case. -/
theorem capital_hexColumn : ∀ c ∈ (hexColumn width n).toList, c.toUpper = c := by
  intro c member
  rw [toList_hexColumn, List.mem_append] at member
  rcases member with padding | digit
  · rw [List.eq_of_mem_replicate padding]
    decide
  · obtain ⟨raw, _, rfl⟩ := List.mem_map.mp digit
    exact toUpper_toUpper raw

/-- A column is the bare number that it shows. -/
theorem bareHex_hexColumn : Numeral.BareHex (hexColumn width n).toList n := by
  have denotes : Numeral.BareHex ([] ++ ([] ++ _)) _ :=
    .intro (by decide) (isHex_hexColumn width n)
  rwa [List.nil_append, List.nil_append, hexValue_hexColumn] at denotes

/-- A number of 32 bits is read back from its column, also where the column had to grow. -/
theorem readHex_hexColumn {n : Nat} (small : n < Address.limit) :
    Numeral.readHex (hexColumn width n) = .ok n := by
  apply Numeral.readHex_eq_ok_iff.mpr
  rw [trim_of_visible (visible_hexColumn width n)]
  exact ⟨.inl (bareHex_hexColumn width n), small⟩

end Text

section Program

variable {machine : Machine} {address : Nat}

/-- The statement that puts a program at an address. -/
def Statement.ofStart (address : Nat) : Statement :=
  ⟨none, .directive .start, some ⟨Text.hexColumn 6 address⟩, false⟩

private theorem Statement.parse_start (machine : Machine) (address : Nat) :
    parse machine ("START " ++ Text.hexColumn 6 address) = .ok (some (ofStart address)) := by
  have member : .directive .start ∈ machine.operations := by
    cases machine <;> decide
  have mnemonic : Directive.start.mnemonic ++ " " = "START " := by decide
  rw [← mnemonic]
  apply parse_directive_of_plain member
  · exact Text.hexColumn_ne_nil 6 address
  · exact Text.visible_hexColumn 6 address
  · exact Text.capital_hexColumn 6 address

private theorem Statement.startAddress_ofStart (small : address < Address.limit) :
    (ofStart address).startAddress = .ok address := by
  simp only [startAddress, ofStart, Text.readHex_hexColumn 6 small]
  rfl

def startLine (address : Nat) : ObjectLine where
  source := ⟨1, String.ofList (Text.trimEnd ("START " ++ Text.hexColumn 6 address).toList),
    .ofStart address⟩
  address := address
  bytes := []
  modification := none

private theorem ofLines_startLine (small : address < Address.limit) :
    Layout.ofLines [(startLine address).source] = .ok ⟨"", address, address, ∅⟩ := by
  have opens : Layout.applyStart true {} (startLine address).source =
      .ok ⟨"", address, address, ∅⟩ :=
    Layout.applyStart_true_of_eq rfl (Statement.startAddress_ofStart small)
  have settled : Layout.advance ⟨"", address, address, ∅⟩ (startLine address).source =
      .ok ⟨"", address, address, ∅⟩ :=
    Layout.advance_eq_ok_iff.mpr ⟨0, rfl, small, rfl⟩
  have placed : Layout.place true {} (startLine address).source =
      .ok ⟨"", address, address, ∅⟩ := by
    rw [Layout.place, opens]
    exact settled
  change (Layout.place true {} (startLine address).source).bind (·.placeAll []) = _
  rw [placed]
  rfl

private theorem assembly_startLine (machine : Machine) (small : address < Address.limit) :
    Assembly machine ["START " ++ Text.hexColumn 6 address] ⟨⟨"", address, 0⟩, [], [], address⟩
      { machine := machine, start := address, listing := [.ofObjectLine (startLine address)] }
      [(startLine address).source] [startLine address] [0] ⟨address, 0⟩ where
  parsed := by
    simp only [SourceLine.parseAll, SourceLine.parseFrom_cons, Statement.parse_start]
    rfl
  machine_eq := rfl
  placed := ofLines_startLine small
  sources_eq := rfl
  trail := .cons ⟨rfl, rfl, rfl, rfl, small⟩ (.nil _)
  listing_eq := rfl
  short := by
    intro line member present
    obtain rfl := List.mem_singleton.mp member
    exact absurd rfl present
  program_eq := rfl

/-- A program that is nothing but a `START` begins at the address that stands behind it. -/
theorem assemble_start (machine : Machine) (small : address < Address.limit) :
    assemble machine ["START " ++ Text.hexColumn 6 address] =
      .ok ⟨⟨"", address, 0⟩, [], [], address⟩ := by
  have assembled : Assembler.assemble { machine := machine }
      ["START " ++ Text.hexColumn 6 address] = (.ok _, _) :=
    Assembler.assemble_eq_ok_iff.mpr ⟨_, _, _, _, assembly_startLine machine small⟩
  rw [assemble, assembled]

end Program

open Numeral (BareHex PlusHex)

/-- Start addresses are read exactly, but for a `+`. Each digit is that of its value, up to letter
case, and a row of digits has the value of its places. A text is read if and only if it is a number
below `2 ^ 32`, with blank characters around it or not, that is bare or has one `+` in front of its
digits. So the rule that only bare numbers are read holds of every text but these numbers with a
`+`. What the header and the end record show as the first address of a program is printed in upper
case and read back as that address, and a program that has this text behind its `START` begins
there. -/
theorem start_addresses_are_read_up_to_plus (text : String) :
    (∀ c, Numeral.isHexDigit c = true →
      Numeral.hexDigitValue c < 16 ∧ Text.hexDigit (Numeral.hexDigitValue c) = c.toUpper) ∧
    (∀ digits, Numeral.hexValue digits =
      Nat.ofDigits 16 (digits.reverse.map Numeral.hexDigitValue)) ∧
    (∀ value, Numeral.readHex text = .ok value ↔
      (BareHex (Text.trim text.toList) value ∨ PlusHex (Text.trim text.toList) value) ∧
        value < 2 ^ 32) ∧
    ((∀ value, Numeral.readHex text = .ok value ↔
        BareHex (Text.trim text.toList) value ∧ value < 2 ^ 32) ↔
      ¬∃ value, PlusHex (Text.trim text.toList) value ∧ value < 2 ^ 32) ∧
    ∀ address, address < 2 ^ 32 →
      ∃ printed,
        (∀ name length, (Header.mk name address length).render =
          "H" ++ Header.nameColumn name ++ printed ++ Text.hexColumn 6 length) ∧
        renderEnd address = "E" ++ printed ∧
        (∀ c ∈ printed.toList, Numeral.isHexDigit c = true ∧ c.toUpper = c) ∧
        Numeral.readHex printed = .ok address ∧
        ∀ machine, assemble machine ["START " ++ printed] =
          .ok ⟨⟨"", address, 0⟩, [], [], address⟩ := by
  refine ⟨?_, Numeral.hexValue_eq_ofDigits, ?_, Numeral.readHex_bare_iff text, ?_⟩
  · intro c digit
    exact ⟨Numeral.hexDigitValue_lt digit, Numeral.hexDigit_hexDigitValue digit⟩
  · intro value
    exact Numeral.readHex_eq_ok_iff
  · intro address small
    refine ⟨Text.hexColumn 6 address, fun _ _ => rfl, rfl, ?_, Text.readHex_hexColumn 6 small, ?_⟩
    · intro c member
      exact ⟨(Text.isHex_hexColumn 6 address).2 c member, Text.capital_hexColumn 6 address c member⟩
    · intro machine
      exact assemble_start machine small

/-- The last address, which its columns have to grow for, and leading zeros in front of it. -/
theorem start_addresses_are_read_up_to_plus_at_limit :
    assemble .sic ["START FFFFFFFF"] = .ok ⟨⟨"", 4294967295, 0⟩, [], [], 4294967295⟩ ∧
    Numeral.readHex "FFFFFFFF" = .ok 4294967295 ∧
    Numeral.readHex " 0x00000ffffFFFF" = .ok 4294967295 := by
  obtain ⟨_, _, read, _, printed⟩ := start_addresses_are_read_up_to_plus " 0x00000ffffFFFF"
  obtain ⟨column, _, shown, _, back, assembled⟩ := printed 4294967295 (by decide)
  have widened : renderEnd 4294967295 = "E" ++ "FFFFFFFF" := by decide
  obtain rfl : column = "FFFFFFFF" := (String.append_right_inj "E").mp (shown.symm.trans widened)
  have row : Numeral.IsHex "00000ffffFFFF".toList := by decide
  have marked : ['0', 'x'] ∈ Numeral.hexMarks := by decide
  exact ⟨assembled .sic, back, (read _).mpr ⟨.inl (.intro marked row), by decide⟩⟩

/-- A `+` behind the mark is accepted, although the number is then not bare, and a program begins at
the address behind it. -/
theorem signed_start_address_is_read :
    Numeral.readHex "0X+1F" = .ok 31 ∧ (¬∃ value, BareHex (Text.trim "0X+1F".toList) value) ∧
    Numeral.readHex "+1F" = .ok 31 ∧ (¬∃ value, BareHex (Text.trim "+1F".toList) value) ∧
    assemble .xe ["P START 0X+1F"] = .ok ⟨⟨"P", 31, 0⟩, [], [], 31⟩ := by
  refine ⟨rfl, ?_, rfl, ?_, by decide +kernel⟩
  · rintro ⟨value, bare⟩
    exact bare.plus_not_mem (by decide)
  · rintro ⟨value, bare⟩
    exact bare.plus_not_mem (by decide)

end SicAssembler
