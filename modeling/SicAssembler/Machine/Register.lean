/-! # Registers

Format 2 instructions name registers by four-bit codes. Code 7 is not in use.
-/

namespace SicAssembler

inductive Register where
  | a
  | x
  | l
  | b
  | s
  | t
  | f
  | pc
  | sw
deriving DecidableEq, Repr

namespace Register

/-- All registers, by increasing code. -/
def all : List Register := [.a, .x, .l, .b, .s, .t, .f, .pc, .sw]

def name : Register → String
  | .a => "A"
  | .x => "X"
  | .l => "L"
  | .b => "B"
  | .s => "S"
  | .t => "T"
  | .f => "F"
  | .pc => "PC"
  | .sw => "SW"

def code : Register → Nat
  | .a => 0
  | .x => 1
  | .l => 2
  | .b => 3
  | .s => 4
  | .t => 5
  | .f => 6
  | .pc => 8
  | .sw => 9

/-- The register with exactly this name. -/
def ofName? (name : String) : Option Register := all.find? fun register => register.name == name

theorem code_lt (register : Register) : register.code < 16 := by
  cases register <;> decide

theorem ofName?_name (register : Register) : ofName? register.name = some register := by
  cases register <;> decide

end Register

end SicAssembler
