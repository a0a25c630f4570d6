import SicAssembler.ObjectProgram.Record

/-! # Text buffers

A text buffer collects the bytes of the next text record. It adopts the address of the first bytes
put into it and does not look at later addresses, except to see whether more bytes fit.
-/

namespace SicAssembler

/-- The bytes of a text record that is not finished. -/
structure TextBuffer where
  start : Nat
  bytes : List UInt8 := []
deriving DecidableEq, Repr

namespace TextBuffer

/-- Whether a record that began at the buffer's start may reach to the end of more bytes. -/
def fits (buffer : TextBuffer) (address length : Nat) : Bool :=
  if buffer.bytes.isEmpty then length ≤ maxTextBytes
  else address + length - buffer.start ≤ maxTextBytes

/-- Append bytes. An empty buffer moves to their address. -/
def push (buffer : TextBuffer) (address : Nat) (bytes : List UInt8) : TextBuffer where
  start := if buffer.bytes.isEmpty then address else buffer.start
  bytes := buffer.bytes ++ bytes

/-- The record of the bytes so far; an empty buffer has none. -/
def record? (buffer : TextBuffer) : Option TextRecord :=
  if buffer.bytes.isEmpty then none else some ⟨buffer.start, buffer.bytes⟩

def clear (buffer : TextBuffer) : TextBuffer := { buffer with bytes := [] }

end TextBuffer

end SicAssembler
