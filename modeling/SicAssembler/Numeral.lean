import SicAssembler.Text.Blank

/-! # Numerals in operands

Start addresses are hexadecimal, every other number is decimal. Blank characters around a numeral
do not count. A reader either returns the value or says why the text is no such numeral, and its
error keeps the text as it was given.
-/

namespace SicAssembler

/-- Why a text is not the numeral that was asked for. -/
inductive NumeralError where
  /-- Nothing is left of a hexadecimal numeral once its mark is removed. -/
  | emptyHex
  /-- The text is no hexadecimal numeral, or its value needs more than 32 bits. -/
  | invalidHex (text : String)
  /-- The text is no decimal numeral, or its value needs more than 64 bits with its sign. -/
  | invalidDecimal (text : String)
  /-- The value of a count is negative or needs more than 32 bits. -/
  | countRange (text : String)
deriving DecidableEq, Repr

def NumeralError.message : NumeralError → String
  | .emptyHex => "empty hexadecimal number"
  | .invalidHex text => "Invalid hexadecimal: " ++ text
  | .invalidDecimal text => "Invalid decimal: " ++ text
  | .countRange text => "count out of range: " ++ text

namespace Numeral

def isHexDigit (c : Char) : Bool :=
  c.isDigit || ('a' ≤ c && c ≤ 'f') || ('A' ≤ c && c ≤ 'F')

def hexDigitValue (c : Char) : Nat :=
  if c.isDigit then c.toNat - '0'.toNat
  else if 'a' ≤ c then c.toNat - 'a'.toNat + 10
  else c.toNat - 'A'.toNat + 10

/-- The value of a row of hexadecimal digits, the most significant first. -/
def hexValue (digits : List Char) : Nat :=
  digits.foldl (fun value c => 16 * value + hexDigitValue c) 0

/-- The value of a row of decimal digits, the most significant first. -/
def decimalValue (digits : List Char) : Nat := Nat.ofDigitChars 10 digits 0

/-- Remove the mark `0X` or `0x` in front of a hexadecimal numeral. -/
def dropHexMark : List Char → List Char
  | '0' :: 'X' :: rest => rest
  | '0' :: 'x' :: rest => rest
  | text => text

/-- Remove one `+` in front of a numeral. -/
def dropPlus : List Char → List Char
  | '+' :: rest => rest
  | text => text

/-- Read an address: an optional mark, an optional `+`, and hexadecimal digits of value below
`2 ^ 32`. -/
def readHex (text : String) : Except NumeralError Nat :=
  let unmarked := dropHexMark (Text.trim text.toList)
  let digits := dropPlus unmarked
  if unmarked.isEmpty then .error .emptyHex
  else if !digits.isEmpty && digits.all isHexDigit && hexValue digits < 0x100000000 then
    .ok (hexValue digits)
  else .error (.invalidHex text)

/-- Split a decimal numeral into its sign and its digits. -/
def splitSign : List Char → Bool × List Char
  | '-' :: digits => (true, digits)
  | '+' :: digits => (false, digits)
  | digits => (false, digits)

/-- The value of an optional sign followed by decimal digits; `none` for a text of another form. -/
def decimal? (text : List Char) : Option Int :=
  let (negative, digits) := splitSign text
  if !digits.isEmpty && digits.all Char.isDigit then
    some (if negative then -(decimalValue digits : Int) else decimalValue digits)
  else none

/-- Read a signed decimal numeral of at most 64 bits. -/
def readDecimal (text : String) : Except NumeralError Int :=
  match decimal? (Text.trim text.toList) with
  | some value =>
    if -0x8000000000000000 ≤ value ∧ value < 0x8000000000000000 then .ok value
    else .error (.invalidDecimal text)
  | none => .error (.invalidDecimal text)

/-- A signed value as an unsigned one of 32 bits, if it is one. -/
def toWord? (value : Int) : Option Nat :=
  if 0 ≤ value ∧ value < 0x100000000 then some value.toNat else none

/-- Read a decimal count of at most 32 bits. -/
def readCount (text : String) : Except NumeralError Nat := do
  match toWord? (← readDecimal text) with
  | some count => .ok count
  | none => .error (.countRange text)

example : readHex " 0x1F " = .ok 31 := rfl
example : readHex "0X" = .error .emptyHex := rfl
example : readDecimal "-0012" = .ok (-12) := rfl
example : readDecimal "1_0" = .error (.invalidDecimal "1_0") := rfl
example : readCount "4294967296" = .error (.countRange "4294967296") := rfl

end Numeral

end SicAssembler
