import SicAssembler.ObjectLine
import SicAssembler.ObjectProgram.TextBuffer

/-! # Packing object code into text records

The bytes of each object line are cut into pieces that fit into an empty record. Pieces are packed
in order. A record is closed when the next piece would make it too long, or when memory was
reserved between the two.
-/

namespace SicAssembler

/-- Bytes that stay together in one record. -/
structure Piece where
  address : Nat
  bytes : List UInt8
  /-- Whether a reservation stands between this piece and the one before it. -/
  afterGap : Bool
deriving DecidableEq, Repr

namespace Piece

/-- Cut a list into consecutive parts of a given length, the last one shorter; `fuel` bounds the
number of parts. -/
def chunksWith {α : Type} (length : Nat) : Nat → List α → List (List α)
  | 0, _ => []
  | _ + 1, [] => []
  | fuel + 1, item :: rest =>
    (item :: rest).take length :: chunksWith length fuel ((item :: rest).drop length)

/-- Cut a list into consecutive parts of a given length, the last one shorter. -/
def chunks {α : Type} (length : Nat) (items : List α) : List (List α) :=
  chunksWith length items.length items

private theorem flatten_chunksWith {α : Type} {length : Nat} (positive : 0 < length) (fuel : Nat)
    (items : List α) (enough : items.length ≤ fuel) :
    (chunksWith length fuel items).flatten = items := by
  induction fuel generalizing items with
  | zero => simp [chunksWith, List.length_eq_zero_iff.mp (Nat.le_zero.mp enough)]
  | succ fuel ih =>
    cases items with
    | nil => rfl
    | cons item rest =>
      have shorter : ((item :: rest).drop length).length ≤ fuel := by
        simp only [List.length_drop, List.length_cons] at enough ⊢
        omega
      rw [chunksWith, List.flatten_cons, ih _ shorter, List.take_append_drop]

/-- Cutting loses nothing. -/
theorem flatten_chunks {α : Type} {length : Nat} (positive : 0 < length) (items : List α) :
    (chunks length items).flatten = items :=
  flatten_chunksWith positive items.length items (Nat.le_refl _)

private theorem length_of_mem_chunksWith {α : Type} {length : Nat} (positive : 0 < length)
    (fuel : Nat) (items : List α) :
    ∀ part ∈ chunksWith length fuel items, 0 < part.length ∧ part.length ≤ length := by
  induction fuel generalizing items with
  | zero => simp [chunksWith]
  | succ fuel ih =>
    cases items with
    | nil => simp [chunksWith]
    | cons item rest =>
      intro part member
      rcases List.mem_cons.mp member with rfl | later
      · simp only [List.length_take, List.length_cons]
        omega
      · exact ih _ part later

/-- Every part has an element, and none is longer than asked for. -/
theorem length_of_mem_chunks {α : Type} {length : Nat} (positive : 0 < length) (items : List α) :
    ∀ part ∈ chunks length items, 0 < part.length ∧ part.length ≤ length :=
  length_of_mem_chunksWith positive items.length items

/-- Place parts one after another. Only the first one can stand behind a gap. -/
def place (gap : Bool) (address : Nat) : List (List UInt8) → Except Fault (List Piece)
  | [] => .ok []
  | bytes :: rest => do
    let next ← Address.add address bytes.length
    let pieces ← place false next rest
    return ⟨address, bytes, gap⟩ :: pieces

/-- The pieces of object lines; `gap` tells whether memory was reserved since the last piece. -/
def ofLines : Bool → List ObjectLine → Except Diagnostic (List Piece)
  | _, [] => .ok []
  | gap, line :: rest => do
    let front ← atLine line.source.line
      (place gap line.address (chunks maxTextBytes line.bytes))
    let back ← ofLines ((gap && front.isEmpty) || line.source.statement.reserves) rest
    return front ++ back

/-- Pack pieces into records, behind the bytes that a buffer holds already. -/
def pack (buffer : TextBuffer) : List Piece → List TextRecord
  | [] => buffer.record?.toList
  | piece :: rest =>
    if piece.afterGap || !buffer.fits piece.address piece.bytes.length then
      buffer.record?.toList ++ pack (buffer.clear.push piece.address piece.bytes) rest
    else pack (buffer.push piece.address piece.bytes) rest

end Piece

end SicAssembler
