import SicAssembler.ByteLiteral
import SicAssembler.ObjectProgram

/-! # Reading object programs

A loader reads records by fixed columns: six digits for an address or a length, two for a count.
Columns that had to grow cannot be read back, so programs are readable when all their addresses
have six digits.
-/

namespace SicAssembler

/-- Read a hexadecimal column of exactly the given width, and return what follows it. -/
def column? (width : Nat) (text : List Char) : Option (Nat × List Char) :=
  let digits := text.take width
  if digits.length = width ∧ digits.all Numeral.isHexDigit then
    some (Numeral.hexValue digits, text.drop width)
  else none

/-- Read a header record. The name has six characters, blanks at its end included. -/
def Header.read? (record : String) : Option Header :=
  match record.toList with
  | 'H' :: rest => do
    let (start, tail) ← column? 6 (rest.drop 6)
    let (length, tail) ← column? 6 tail
    if tail.isEmpty then some ⟨String.ofList (rest.take 6), start, length⟩ else none
  | _ => none

/-- Read a text record. Its count has to agree with the bytes behind it. -/
def TextRecord.read? (record : String) : Option TextRecord :=
  match record.toList with
  | 'T' :: rest => do
    let (start, tail) ← column? 6 rest
    let (count, digits) ← column? 2 tail
    if digits.length = 2 * count ∧ digits.all Numeral.isHexDigit then
      some ⟨start, ByteLiteral.pairBytes digits⟩
    else none
  | _ => none

def Modification.read? (record : String) : Option Modification :=
  match record.toList with
  | 'M' :: rest => do
    let (address, tail) ← column? 6 rest
    let (halfBytes, tail) ← column? 2 tail
    if tail.isEmpty then some ⟨address, halfBytes⟩ else none
  | _ => none

def readEnd? (record : String) : Option Nat :=
  match record.toList with
  | 'E' :: rest => do
    let (entry, tail) ← column? 6 rest
    if tail.isEmpty then some entry else none
  | _ => none

/-- Read records from the front of a list for as long as they can be read. -/
def readWhile {α : Type} (read? : String → Option α) : List String → List α × List String
  | [] => ([], [])
  | record :: rest =>
    match read? record with
    | none => ([], record :: rest)
    | some value =>
      let (values, tail) := readWhile read? rest
      (value :: values, tail)

/-- Read an object program: one header, then texts, then modifications, then one end. -/
def ObjectProgram.read? : List String → Option ObjectProgram
  | [] => none
  | first :: rest => do
    let header ← Header.read? first
    let (texts, rest) := readWhile TextRecord.read? rest
    let (modifications, rest) := readWhile Modification.read? rest
    match rest with
    | [last] => return ⟨header, texts, modifications, ← readEnd? last⟩
    | _ => none

example : ObjectProgram.read? ["HP     00000000000A", "T0000000A0100034B100000454F46", "M00000405",
      "E000000"] =
    some ⟨⟨"P     ", 0, 10⟩, [⟨0, [1, 0, 3, 0x4B, 0x10, 0, 0, 0x45, 0x4F, 0x46]⟩],
      [⟨4, 5⟩], 0⟩ := by
  decide
example : Header.read? "HP     100000000000A" = none := by decide

end SicAssembler
