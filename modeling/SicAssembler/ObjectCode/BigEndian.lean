/-! # Numbers as bytes

Object code is written with the most significant byte first.
-/

namespace SicAssembler.BigEndian

/-- The low bytes of a number, as many as asked for. -/
def encode : Nat → Nat → List UInt8
  | 0, _ => []
  | width + 1, value => encode width (value / 256) ++ [UInt8.ofNat (value % 256)]

/-- How many numbers have a given width. -/
def span : Nat → Nat
  | 0 => 1
  | width + 1 => 256 * span width

def decode (bytes : List UInt8) : Nat :=
  bytes.foldl (fun value byte => 256 * value + byte.toNat) 0

@[simp] theorem length_encode (width value : Nat) : (encode width value).length = width := by
  induction width generalizing value with
  | zero => rfl
  | succ width ih => simp [encode, ih]

theorem decode_append_singleton (bytes : List UInt8) (byte : UInt8) :
    decode (bytes ++ [byte]) = 256 * decode bytes + byte.toNat := by
  simp [decode]

/-- Reading back gives the number, less what its width cuts off. -/
theorem decode_encode (width value : Nat) : decode (encode width value) = value % span width := by
  induction width generalizing value with
  | zero => simp [encode, decode, span, Nat.mod_one]
  | succ width ih =>
    rw [encode, decode_append_singleton, ih, UInt8.toNat_ofNat', span, Nat.mod_mul]
    omega

end SicAssembler.BigEndian
