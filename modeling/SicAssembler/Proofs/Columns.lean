import Mathlib.Algebra.Ring.Nat
import SicAssembler.Listing
import SicAssembler.ObjectProgram.Reader

/-! # Reading records back

A hexadecimal column that did not have to grow reads back as its number, and the pairs of digits of
a byte string read back as its bytes. It follows that an object program whose numbers fit into
their columns can be recovered from its records: only the name comes back cut or filled to six
characters.
-/

namespace SicAssembler

namespace Numeral

private theorem hexDigitValue_hexDigit {n : Nat} (small : n < 16) :
    hexDigitValue (Text.hexDigit n) = n := by
  revert n
  decide

private theorem isHexDigit_hexDigit {n : Nat} (small : n < 16) :
    isHexDigit (Text.hexDigit n) = true := by
  revert n
  decide

theorem hexValue_append_singleton (digits : List Char) (c : Char) :
    hexValue (digits ++ [c]) = 16 * hexValue digits + hexDigitValue c := by
  simp [hexValue]

/-- Leading zeros do not count. -/
theorem hexValue_replicate_append (count : Nat) (digits : List Char) :
    hexValue (List.replicate count '0' ++ digits) = hexValue digits := by
  induction count with
  | zero => rfl
  | succ count ih =>
    rw [List.replicate_succ, List.cons_append, ← ih]
    rfl

private theorem hexDigits_eq_if (n : Nat) :
    Text.hexDigits n =
      if n < 16 then [Text.hexDigit n]
      else Text.hexDigits (n / 16) ++ [Text.hexDigit (n % 16)] := by
  rw [Text.hexDigits, Nat.toDigits_eq_if (by decide)]
  split
  · rfl
  · rw [List.map_append]
    rfl

/-- The digits of a number have its value. -/
theorem hexValue_hexDigits (n : Nat) : hexValue (Text.hexDigits n) = n := by
  induction n using Nat.strongRecOn with
  | _ n ih =>
    rw [hexDigits_eq_if]
    split
    · next small => simp [hexValue, hexDigitValue_hexDigit small]
    · next large =>
      rw [hexValue_append_singleton, ih (n / 16) (by omega),
        hexDigitValue_hexDigit (Nat.mod_lt n (by decide))]
      omega

private theorem all_isHexDigit_hexDigits (n : Nat) : (Text.hexDigits n).all isHexDigit = true := by
  induction n using Nat.strongRecOn with
  | _ n ih =>
    rw [hexDigits_eq_if]
    split
    · next small => simp [isHexDigit_hexDigit small]
    · next large =>
      rw [List.all_append, ih (n / 16) (by omega)]
      simp [isHexDigit_hexDigit (Nat.mod_lt n (by decide : 0 < 16))]

end Numeral

namespace Text

theorem toList_hexColumn (width n : Nat) :
    (hexColumn width n).toList =
      List.replicate (width - (hexDigits n).length) '0' ++ hexDigits n := by
  simp [hexColumn, List.leftpad]

/-- A column holds digits only. -/
theorem all_isHexDigit_hexColumn (width n : Nat) :
    (hexColumn width n).toList.all Numeral.isHexDigit = true := by
  rw [toList_hexColumn, List.all_append, Numeral.all_isHexDigit_hexDigits, Bool.and_true,
    List.all_replicate]
  split
  · rfl
  · decide

/-- A column has the value of its number, however wide it is. -/
theorem hexValue_hexColumn (width n : Nat) :
    Numeral.hexValue (hexColumn width n).toList = n := by
  rw [toList_hexColumn, Numeral.hexValue_replicate_append, Numeral.hexValue_hexDigits]

end Text

/-- A number that fits into its column is read back from it. -/
theorem column?_hexColumn {width n : Nat} (wide : 0 < width) (fits : n < 16 ^ width)
    (tail : List Char) :
    column? width ((Text.hexColumn width n).toList ++ tail) = some (n, tail) := by
  have digitCount : (Text.hexDigits n).length ≤ width := by
    rw [Text.hexDigits, List.length_map]
    exact (Nat.length_toDigits_le_iff (by decide) wide).mpr fits
  have columnLength : (Text.hexColumn width n).toList.length = width := by
    rw [Text.toList_hexColumn, List.length_append, List.length_replicate]
    omega
  simp only [column?]
  rw [List.take_left' columnLength, List.drop_left' columnLength,
    if_pos ⟨columnLength, Text.all_isHexDigit_hexColumn width n⟩, Text.hexValue_hexColumn]

/-- The pairs of digits of a byte string are read back as its bytes. -/
theorem pairBytes_hexPairs (bytes : List UInt8) :
    ByteLiteral.pairBytes (Text.hexPairs bytes) = bytes := by
  induction bytes with
  | nil => rfl
  | cons byte rest ih =>
    have high : byte.toNat / 16 < 16 := by have := byte.toNat_lt; omega
    have low : byte.toNat % 16 < 16 := Nat.mod_lt _ (by decide)
    rw [Text.hexPairs_cons, ByteLiteral.pairBytes, ih, Numeral.hexDigitValue_hexDigit high,
      Numeral.hexDigitValue_hexDigit low, Nat.div_add_mod, UInt8.ofNat_toNat]

theorem all_isHexDigit_hexPairs (bytes : List UInt8) :
    (Text.hexPairs bytes).all Numeral.isHexDigit = true := by
  induction bytes with
  | nil => rfl
  | cons byte rest ih =>
    have high : byte.toNat / 16 < 16 := by have := byte.toNat_lt; omega
    have low : byte.toNat % 16 < 16 := Nat.mod_lt _ (by decide)
    simp [Numeral.isHexDigit_hexDigit high, Numeral.isHexDigit_hexDigit low, ih]

def ListingLine.bytes (line : ListingLine) : List UInt8 :=
  ByteLiteral.pairBytes line.object.toList

@[simp] theorem ListingLine.bytes_ofObjectLine (line : ObjectLine) :
    (ListingLine.ofObjectLine line).bytes = line.bytes := by
  simp [ListingLine.bytes, ListingLine.ofObjectLine, Text.hexOfBytes, pairBytes_hexPairs]

/-- The name of a program as its header record shows it. -/
def Header.nameColumn (name : String) : String :=
  Text.alignLeft 6 (String.ofList (name.toList.take 6))

private theorem Header.length_nameColumn (name : String) :
    (Header.nameColumn name).toList.length = 6 := by
  simp only [Header.nameColumn, Text.alignLeft, String.toList_ofList, List.length_rightpad,
    List.length_take]
  omega

/-- A header whose numbers have six digits is read back, with its name as it is shown. -/
theorem Header.read?_render {header : Header} (start : header.start < 16 ^ 6)
    (length : header.length < 16 ^ 6) :
    Header.read? header.render =
      some ⟨Header.nameColumn header.name, header.start, header.length⟩ := by
  have written : header.render.toList =
      'H' :: ((Header.nameColumn header.name).toList ++
        ((Text.hexColumn 6 header.start).toList ++
          ((Text.hexColumn 6 header.length).toList ++ []))) := by
    simp [Header.render, Header.nameColumn]
  have wide := Header.length_nameColumn header.name
  simp only [Header.read?, written]
  rw [List.drop_left' wide, List.take_left' wide, column?_hexColumn (by decide) start]
  simp only [Option.bind_eq_bind, Option.bind_some]
  rw [column?_hexColumn (by decide) length]
  simp

theorem TextRecord.toList_render (record : TextRecord) :
    record.render.toList =
      'T' :: ((Text.hexColumn 6 record.start).toList ++
        ((Text.hexColumn 2 record.bytes.length).toList ++ Text.hexPairs record.bytes)) := by
  simp [TextRecord.render, Text.hexOfBytes]

/-- The count of a text record is the number of bytes behind it. -/
theorem TextRecord.column?_render {record : TextRecord} (count : record.bytes.length < 16 ^ 2)
    (start : record.start < 16 ^ 6) :
    record.render.toList.head? = some 'T' ∧
      column? 6 (record.render.toList.drop 1) = some (record.start, record.render.toList.drop 7) ∧
      column? 2 (record.render.toList.drop 7) =
        some (record.bytes.length, Text.hexPairs record.bytes) := by
  have startColumn := column?_hexColumn (by decide) start
    ((Text.hexColumn 2 record.bytes.length).toList ++ Text.hexPairs record.bytes)
  have tail : record.render.toList.drop 7 =
      (Text.hexColumn 2 record.bytes.length).toList ++ Text.hexPairs record.bytes := by
    simp only [column?, Option.ite_none_right_eq_some, Option.some.injEq, Prod.mk.injEq]
      at startColumn
    rw [toList_render, List.drop_succ_cons]
    exact startColumn.2.2
  refine ⟨by rw [toList_render]; rfl, ?_, ?_⟩
  · rw [tail, toList_render, List.drop_succ_cons, List.drop_zero]
    exact startColumn
  · rw [tail]
    exact column?_hexColumn (by decide) count _

private theorem TextRecord.read?_render {record : TextRecord} (start : record.start < 16 ^ 6)
    (count : record.bytes.length < 16 ^ 2) : TextRecord.read? record.render = some record := by
  simp only [TextRecord.read?, toList_render]
  rw [column?_hexColumn (by decide) start]
  simp only [Option.bind_eq_bind, Option.bind_some]
  rw [column?_hexColumn (by decide) count]
  simp only [Option.bind_some]
  rw [if_pos ⟨Text.length_hexPairs record.bytes, all_isHexDigit_hexPairs record.bytes⟩,
    pairBytes_hexPairs]

private theorem Modification.read?_render {modification : Modification}
    (address : modification.address < 16 ^ 6) (count : modification.halfBytes < 16 ^ 2) :
    Modification.read? modification.render = some modification := by
  have written : modification.render.toList =
      'M' :: ((Text.hexColumn 6 modification.address).toList ++
        ((Text.hexColumn 2 modification.halfBytes).toList ++ [])) := by
    simp [Modification.render]
  simp only [Modification.read?, written]
  rw [column?_hexColumn (by decide) address]
  simp only [Option.bind_eq_bind, Option.bind_some]
  rw [column?_hexColumn (by decide) count]
  simp

private theorem readEnd?_renderEnd {entry : Nat} (small : entry < 16 ^ 6) :
    readEnd? (renderEnd entry) = some entry := by
  have written : (renderEnd entry).toList = 'E' :: ((Text.hexColumn 6 entry).toList ++ []) := by
    simp [renderEnd]
  simp only [readEnd?, written]
  rw [column?_hexColumn (by decide) small]
  simp

/-- Records of one kind are all read, up to the first record of another kind. -/
theorem readWhile_map_append {α : Type} {read? : String → Option α} {render : α → String}
    {values : List α} {tail : List String}
    (readable : ∀ value ∈ values, read? (render value) = some value)
    (stops : ∀ record ∈ tail.head?, read? record = none) :
    readWhile read? (values.map render ++ tail) = (values, tail) := by
  induction values with
  | nil =>
    cases tail with
    | nil => rfl
    | cons record rest => simp [readWhile, stops record rfl]
  | cons value rest ih =>
    have others := ih fun other member => readable other (List.mem_cons_of_mem value member)
    simp [readWhile, readable value List.mem_cons_self, others]

/-- Every number of a program fits into the column that it is written in. -/
structure ObjectProgram.FitsColumns (program : ObjectProgram) : Prop where
  start : program.header.start < 16 ^ 6
  length : program.header.length < 16 ^ 6
  texts : ∀ text ∈ program.texts, text.start < 16 ^ 6 ∧ text.bytes.length < 16 ^ 2
  modifications : ∀ modification ∈ program.modifications,
    modification.address < 16 ^ 6 ∧ modification.halfBytes < 16 ^ 2
  entry : program.entry < 16 ^ 6

/-- The program as a loader sees it, with the name that the header record shows. -/
def ObjectProgram.shown (program : ObjectProgram) : ObjectProgram :=
  { program with header := { program.header with name := Header.nameColumn program.header.name } }

@[simp] theorem ObjectProgram.texts_shown (program : ObjectProgram) :
    program.shown.texts = program.texts := by
  unfold shown
  rfl

@[simp] theorem ObjectProgram.modifications_shown (program : ObjectProgram) :
    program.shown.modifications = program.modifications := by
  unfold shown
  rfl

@[simp] theorem ObjectProgram.entry_shown (program : ObjectProgram) :
    program.shown.entry = program.entry := by
  unfold shown
  rfl

private theorem read?_text_eq_none_of_modification (modification : Modification) :
    TextRecord.read? modification.render = none := by
  simp [TextRecord.read?, Modification.render]

private theorem read?_eq_none_of_end (entry : Nat) :
    TextRecord.read? (renderEnd entry) = none ∧ Modification.read? (renderEnd entry) = none := by
  simp [TextRecord.read?, Modification.read?, renderEnd]

/-- A program that fits into its columns is recovered from its records. -/
theorem ObjectProgram.read?_records {program : ObjectProgram} (fits : program.FitsColumns) :
    ObjectProgram.read? program.records = some program.shown := by
  have lastUnread := read?_eq_none_of_end program.entry
  have texts : readWhile TextRecord.read?
      (program.texts.map TextRecord.render ++
        (program.modifications.map Modification.render ++ [renderEnd program.entry])) =
      (program.texts,
        program.modifications.map Modification.render ++ [renderEnd program.entry]) := by
    apply readWhile_map_append
    · intro text member
      exact TextRecord.read?_render (fits.texts text member).1 (fits.texts text member).2
    · intro record first
      cases modifications : program.modifications with
      | nil =>
        rw [modifications] at first
        cases first
        exact lastUnread.1
      | cons modification rest =>
        rw [modifications] at first
        cases first
        exact read?_text_eq_none_of_modification modification
  have modifications : readWhile Modification.read?
      (program.modifications.map Modification.render ++ [renderEnd program.entry]) =
      (program.modifications, [renderEnd program.entry]) := by
    apply readWhile_map_append
    · intro modification member
      exact Modification.read?_render (fits.modifications modification member).1
        (fits.modifications modification member).2
    · intro record first
      cases first
      exact lastUnread.2
  simp only [ObjectProgram.records, ObjectProgram.read?, List.cons_append, List.append_assoc]
  rw [Header.read?_render fits.start fits.length]
  simp only [Option.bind_eq_bind, Option.bind_some, texts, modifications,
    readEnd?_renderEnd fits.entry]
  rfl

end SicAssembler
