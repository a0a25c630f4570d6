import SicAssembler.Numeral
import SicAssembler.Text.Column

/-! # Byte literals

`C'...'` stands for the characters between the apostrophes, `X'...'` for the bytes whose hexadecimal
digits stand there. Apostrophes inside the body are part of it: only the first and the last one
delimit.
-/

namespace SicAssembler

/-- Why a text is not a byte literal. -/
inductive LiteralError where
  /-- The text is not a kind followed by a body in apostrophes. -/
  | shape
  /-- A character literal has no characters. -/
  | emptyCharacters
  /-- A character literal has a character outside ASCII. -/
  | notAscii
  /-- The digits of a hexadecimal literal do not form pairs. -/
  | unpairedDigits
  /-- A hexadecimal literal has a character that is no digit. -/
  | notHexDigit
deriving DecidableEq, Repr

def LiteralError.message : LiteralError → String
  | .shape => "expected C'...' or X'...'"
  | .emptyCharacters => "empty character literal"
  | .notAscii => "character literal must be ASCII"
  | .unpairedDigits => "hex literal needs an even, non-zero digit count"
  | .notHexDigit => "hex literal contains a non-hex digit"

/-- The body of a literal, by its kind. Digits are kept in upper case. -/
inductive ByteLiteral where
  | characters (body : String)
  | hex (body : String)
deriving DecidableEq, Repr

namespace ByteLiteral

/-- The text between a first and a last apostrophe. -/
def unquote? : List Char → Option (List Char)
  | '\'' :: rest =>
    match rest.reverse with
    | '\'' :: body => some body.reverse
    | _ => none
  | _ => none

def isAscii (c : Char) : Bool := c.toNat < 128

def readCharacters (body : List Char) : Except LiteralError ByteLiteral :=
  if body.isEmpty then .error .emptyCharacters
  else if !body.all isAscii then .error .notAscii
  else .ok (.characters (String.ofList body))

/-- Read the body of a hexadecimal literal. Its size is counted in bytes of UTF-8. -/
def readHexDigits (body : List Char) : Except LiteralError ByteLiteral :=
  if body.isEmpty || (String.ofList body).utf8ByteSize % 2 != 0 then .error .unpairedDigits
  else if !body.all Numeral.isHexDigit then .error .notHexDigit
  else .ok (.hex (String.ofList (body.map Char.toUpper)))

/-- Read a literal. A missing apostrophe is reported before an unknown kind. -/
def read (text : String) : Except LiteralError ByteLiteral :=
  match text.toList with
  | [] => .error .shape
  | kind :: quoted =>
    match unquote? quoted with
    | none => .error .shape
    | some body =>
      if kind = 'C' then readCharacters body
      else if kind = 'X' then readHexDigits body
      else .error .shape

def pairBytes : List Char → List UInt8
  | high :: low :: rest =>
    UInt8.ofNat (16 * Numeral.hexDigitValue high + Numeral.hexDigitValue low) :: pairBytes rest
  | _ => []

def bytes : ByteLiteral → List UInt8
  | .characters body => body.toList.map fun c => UInt8.ofNat c.toNat
  | .hex body => pairBytes body.toList

/-- The characters between the apostrophes. -/
def body : ByteLiteral → String
  | .characters body => body
  | .hex body => body

/-- How many bytes a literal takes, as a 32-bit number. -/
def size : ByteLiteral → Nat
  | .characters body => body.utf8ByteSize % 0x100000000
  | .hex body => body.utf8ByteSize / 2 % 0x100000000

example : read "X'f1'" = .ok (.hex "F1") := rfl
example : read "C'It''s'" = .ok (.characters "It''s") := rfl
example : (ByteLiteral.hex "F10A").bytes = [0xF1, 0x0A] := by decide

end ByteLiteral

end SicAssembler
