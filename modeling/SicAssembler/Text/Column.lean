/-! # Columns of printed text

Addresses, counts and bytes are printed in upper-case hexadecimal columns. A column has a least
width and grows when its value needs more room.
-/

namespace SicAssembler.Text

/-- Upper-case hexadecimal digits of a number, without leading zeros. -/
def hexDigits (n : Nat) : List Char := (Nat.toDigits 16 n).map Char.toUpper

/-- A hexadecimal column: leading zeros fill it up to its width. -/
def hexColumn (width n : Nat) : String := String.ofList ((hexDigits n).leftpad width '0')

/-- Text moved to the right edge of a column, counted in characters. -/
def alignRight (width : Nat) (text : String) : String :=
  String.ofList (text.toList.leftpad width ' ')

/-- Text moved to the left edge of a column, counted in characters. -/
def alignLeft (width : Nat) (text : String) : String :=
  String.ofList (text.toList.rightpad width ' ')

/-- The upper-case hexadecimal digit of a number below sixteen. -/
def hexDigit (n : Nat) : Char := (Nat.digitChar n).toUpper

/-- Two hexadecimal digits for each byte, with nothing between them. -/
def hexPairs (bytes : List UInt8) : List Char :=
  bytes.flatMap fun byte => [hexDigit (byte.toNat / 16), hexDigit (byte.toNat % 16)]

def hexOfBytes (bytes : List UInt8) : String := String.ofList (hexPairs bytes)

@[simp] theorem hexPairs_nil : hexPairs [] = [] := rfl

@[simp] theorem hexPairs_cons (byte : UInt8) (rest : List UInt8) :
    hexPairs (byte :: rest) =
      hexDigit (byte.toNat / 16) :: hexDigit (byte.toNat % 16) :: hexPairs rest := rfl

theorem length_hexPairs (bytes : List UInt8) : (hexPairs bytes).length = 2 * bytes.length := by
  induction bytes with
  | nil => rfl
  | cons byte rest ih => simp [ih]; omega

example : hexColumn 6 0x1033 = "001033" ∧ hexColumn 6 0x1000000 = "1000000" := by decide
example : hexOfBytes [0x4B, 0x10, 0x10, 0x36] = "4B101036" := by decide

end SicAssembler.Text
