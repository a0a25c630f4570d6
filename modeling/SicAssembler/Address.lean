import SicAssembler.Diagnostic

/-! # Address arithmetic

Addresses are natural numbers below `2 ^ 32`. A step that would leave this range is a fault of its
own, so no address ever wraps around.
-/

namespace SicAssembler.Address

/-- The number of addresses. -/
def limit : Nat := 0x100000000

def add (address offset : Nat) : Except Fault Nat :=
  if address + offset < limit then .ok (address + offset) else .error .addressRange

def sub (address offset : Nat) : Except Fault Nat :=
  if offset ≤ address then .ok (address - offset) else .error .addressRange

theorem add_eq_ok_iff {address offset sum : Nat} :
    add address offset = .ok sum ↔ address + offset = sum ∧ sum < limit := by
  unfold add
  split
  · next bound =>
    constructor
    · intro same; cases same; exact ⟨rfl, bound⟩
    · rintro ⟨rfl, _⟩; rfl
  · next out =>
    constructor
    · intro same; contradiction
    · rintro ⟨rfl, bound⟩; exact absurd bound out

theorem sub_eq_ok_iff {address offset distance : Nat} :
    sub address offset = .ok distance ↔ offset + distance = address := by
  unfold sub
  split
  · next bound =>
    constructor
    · intro same; cases same; omega
    · rintro rfl; simp
  · next out =>
    constructor
    · intro same; contradiction
    · intro same; omega

end SicAssembler.Address
