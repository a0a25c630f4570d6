import SicAssembler.Operand

/-! # Addressing flags

Instructions of formats 3 and 4 carry six flags: `n` and `i` for the addressing mode, `x` for
indexing, `b` and `p` for the register that a displacement counts from, and `e` for the extended
format.
-/

namespace SicAssembler

structure Flags where
  n : Bool := false
  i : Bool := false
  x : Bool := false
  b : Bool := false
  p : Bool := false
  e : Bool := false
deriving DecidableEq, Repr

namespace Flags

/-- The flags `n` and `i` as a number of two bits. -/
def ni (flags : Flags) : Nat := 2 * flags.n.toNat + flags.i.toNat

/-- The flags `x`, `b`, `p` and `e` as a number of four bits. -/
def xbpe (flags : Flags) : Nat :=
  8 * flags.x.toNat + 4 * flags.b.toNat + 2 * flags.p.toNat + flags.e.toNat

/-- The flags that the operand alone decides. An absent operand counts as simple addressing. -/
def ofOperand (operand : Option Operand) : Flags :=
  let x := operand.any Operand.isIndexed
  match (operand.map Operand.mode).getD .simple with
  | .simple => { n := true, i := true, x := x }
  | .immediate => { i := true, x := x }
  | .indirect => { n := true, x := x }

def ofBits (ni xbpe : Nat) : Flags where
  n := ni.testBit 1
  i := ni.testBit 0
  x := xbpe.testBit 3
  b := xbpe.testBit 2
  p := xbpe.testBit 1
  e := xbpe.testBit 0

theorem ni_lt (flags : Flags) : flags.ni < 4 := by
  obtain ⟨n, i, x, b, p, e⟩ := flags
  cases n <;> cases i <;> simp [ni]

theorem xbpe_lt (flags : Flags) : flags.xbpe < 16 := by
  obtain ⟨n, i, x, b, p, e⟩ := flags
  cases x <;> cases b <;> cases p <;> cases e <;> simp [xbpe]

/-- The two numbers determine the flags. -/
theorem ofBits_ni_xbpe (flags : Flags) : ofBits flags.ni flags.xbpe = flags := by
  obtain ⟨n, i, x, b, p, e⟩ := flags
  cases n <;> cases i <;> cases x <;> cases b <;> cases p <;> cases e <;> decide

end Flags

end SicAssembler
