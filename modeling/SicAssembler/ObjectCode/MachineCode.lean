import SicAssembler.Machine.Catalog
import SicAssembler.ObjectCode.BigEndian
import SicAssembler.ObjectCode.Flags

/-! # Machine code

A machine instruction in numbers: the code of its operation and the fields of its format. `bytes`
lays the fields out in memory and `decode?` takes them apart again, so object code can be read
without the source that it came from.
-/

namespace SicAssembler

/-- An instruction by its format, with everything resolved. -/
inductive MachineCode where
  /-- One byte: the code alone. -/
  | format1 (code : UInt8)
  /-- Two bytes: the code and two nibbles. -/
  | format2 (code : UInt8) (first second : Nat)
  /-- Three bytes: code, flags and twelve bits. -/
  | format3 (code : UInt8) (flags : Flags) (displacement : Nat)
  /-- Four bytes: code, flags and twenty bits. -/
  | format4 (code : UInt8) (flags : Flags) (address : Nat)
  /-- Three bytes of SIC: code, index flag and fifteen bits. -/
  | absolute (code : UInt8) (indexed : Bool) (address : Nat)
deriving DecidableEq, Repr

namespace MachineCode

def code : MachineCode → UInt8
  | .format1 code => code
  | .format2 code _ _ => code
  | .format3 code _ _ => code
  | .format4 code _ _ => code
  | .absolute code _ _ => code

def size : MachineCode → Nat
  | .format1 _ => 1
  | .format2 _ _ _ => 2
  | .format3 _ _ _ => 3
  | .format4 _ _ _ => 4
  | .absolute _ _ _ => 3

/-- All fields of an instruction as one number, the code in the highest byte. The flags `n` and `i`
take the two low bits of the code's byte, which the catalog keeps free for them. -/
def value : MachineCode → Nat
  | .format1 code => code.toNat
  | .format2 code first second => code.toNat * 0x100 + first * 0x10 + second
  | .format3 code flags displacement =>
    (code.toNat + flags.ni) * 0x10000 + flags.xbpe * 0x1000 + displacement
  | .format4 code flags address =>
    (code.toNat + flags.ni) * 0x1000000 + flags.xbpe * 0x100000 + address
  | .absolute code indexed address => code.toNat * 0x10000 + indexed.toNat * 0x8000 + address

def bytes (instruction : MachineCode) : List UInt8 :=
  BigEndian.encode instruction.size instruction.value

@[simp] theorem length_bytes (instruction : MachineCode) :
    instruction.bytes.length = instruction.size := by
  simp [bytes]

/-- The format 3 code in the first byte of an instruction: the flags `n` and `i` taken off. -/
def bareCode (byte : UInt8) : UInt8 := UInt8.ofNat (byte.toNat / 4 * 4)

/-- Decode the bytes of a format 3 or format 4 instruction; the flag `e` tells which it is. -/
def decodeFlagged? (first : UInt8) : List UInt8 → Option (MachineCode × List UInt8)
  | second :: third :: rest =>
    let flags := Flags.ofBits (first.toNat % 4) (second.toNat / 16)
    let field := second.toNat % 16 * 0x100 + third.toNat
    if flags.e then
      match rest with
      | fourth :: rest =>
        some (.format4 (bareCode first) flags (field * 0x100 + fourth.toNat), rest)
      | [] => none
    else some (.format3 (bareCode first) flags field, rest)
  | _ => none

def instruction? (machine : Machine) (code : UInt8) : Option Instruction :=
  machine.instructions.find? fun instruction => instruction.code == code

/-- Take a SIC/XE instruction off the front of a byte string. The first byte is looked up in the
catalog, as it is for formats 1 and 2 and without the flags `n` and `i` for format 3. -/
def decodeXe? : List UInt8 → Option (MachineCode × List UInt8)
  | [] => none
  | first :: rest =>
    match instruction? .xe first with
    | some ⟨_, code, .one⟩ => some (.format1 code, rest)
    | some ⟨_, code, .two⟩ =>
      match rest with
      | second :: rest =>
        some (.format2 code (second.toNat / 16) (second.toNat % 16), rest)
      | [] => none
    | _ => (instruction? .xe (bareCode first)).bind fun _ => decodeFlagged? first rest

def decodeSic? : List UInt8 → Option (MachineCode × List UInt8)
  | first :: second :: third :: rest =>
    (instruction? .sic first).map fun instruction =>
      let field := second.toNat % 128 * 0x100 + third.toNat
      (.absolute instruction.code (128 ≤ second.toNat) field, rest)
  | _ => none

def decode? : Machine → List UInt8 → Option (MachineCode × List UInt8)
  | .sic => decodeSic?
  | .xe => decodeXe?

def mnemonic? (machine : Machine) (instruction : MachineCode) : Option String :=
  (instruction? machine instruction.code).map Instruction.mnemonic

/-- No two instructions of a machine have the same code. -/
theorem nodup_codes (machine : Machine) : (machine.instructions.map Instruction.code).Nodup := by
  cases machine <;> decide +kernel

example : (decode? .xe [0x4B, 0x10, 0x10, 0x36, 0x05]).map Prod.snd = some [0x05] := by decide
example : (decode? .xe [0x4B, 0x10, 0x10, 0x36]).bind (fun found => found.1.mnemonic? .xe) =
    some "JSUB" := by decide

end MachineCode

end SicAssembler
