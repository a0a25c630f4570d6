/-! # Displacements

A format 3 instruction reaches its target by twelve bits, counted from the program counter or from
the base register. The program counter is preferred.
-/

namespace SicAssembler

/-- A distance of twelve bits to a target. -/
inductive Displacement where
  /-- Counted from the next instruction, forwards or backwards. -/
  | pcRelative (offset : Int)
  /-- Counted upwards from the base register. -/
  | baseRelative (offset : Nat)
deriving DecidableEq, Repr

namespace Displacement

/-- The distance from the next instruction, if twelve bits hold it with its sign. -/
def pcRelative? (target next : Nat) : Option Displacement :=
  let offset := (target : Int) - next
  if -2048 ≤ offset ∧ offset ≤ 2047 then some (.pcRelative offset) else none

/-- The distance from the base register, if twelve bits hold it. -/
def baseRelative? (target base : Nat) : Option Displacement :=
  if base ≤ target ∧ target ≤ base + 4095 then some (.baseRelative (target - base)) else none

def select? (target next base : Nat) : Option Displacement :=
  (pcRelative? target next).or (baseRelative? target base)

/-- The field in the instruction; a negative offset is written in two's complement. -/
def field : Displacement → Nat
  | .pcRelative offset => (offset % 4096).toNat
  | .baseRelative offset => offset % 4096

def isPcRelative : Displacement → Bool
  | .pcRelative _ => true
  | .baseRelative _ => false

theorem field_lt (displacement : Displacement) : displacement.field < 4096 := by
  cases displacement with
  | pcRelative offset => simp only [field]; omega
  | baseRelative offset => simp only [field]; omega

example : (pcRelative? 0x1000 0x1003).map field = some 0xFFD := by decide
example : select? 0x1033 0x105 0x1033 = some (.baseRelative 0) := by decide

end Displacement

end SicAssembler
