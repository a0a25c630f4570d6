import SicAssembler.Proofs.MovedCode
import SicAssembler.Proofs.References
import SicAssembler.Proofs.TextRecords

/-! # Object programs at another address

Where every statement of a trail can move, there is a trail over the moved program, line by line.
Lines keep their lengths, so the moved code is cut and packed into text records at the same points.
-/

namespace SicAssembler

theorem CodeMoved.length_eq {distance : Nat} {bytes others : List UInt8}
    {modification other : Option Modification}
    (moved : CodeMoved distance bytes modification others other) :
    others.length = bytes.length := by
  cases moved with
  | same _ _ bytes => rw [bytes]
  | field _ bytes _ others _ =>
    rw [bytes, others, MachineCode.length_bytes, MachineCode.length_bytes, MachineCode.size,
      MachineCode.size]

theorem CodeMoved.modification_eq {distance : Nat} {bytes others : List UInt8}
    {modification other : Option Modification}
    (moved : CodeMoved distance bytes modification others other) :
    other = modification.map (·.moved distance) := by
  cases moved with
  | same none otherNone _ =>
    rw [none, otherNone]
    rfl
  | field _ _ named _ otherNamed =>
    rw [named, otherNamed]
    rfl

namespace ObjectLine

/-- A line and the same line in a program that moved. -/
structure Moved (distance : Nat) (line other : ObjectLine) : Prop where
  alike : line.source.Alike other.source
  address_eq : other.address = line.address + distance
  code : CodeMoved distance line.bytes line.modification other.bytes other.modification

/-- A line and one in its place in a program that moved. They are equally long; their bytes may
differ. -/
structure InPlace (distance : Nat) (line other : ObjectLine) : Prop where
  address_eq : other.address = line.address + distance
  length_eq : other.bytes.length = line.bytes.length
  reserves_eq : other.source.statement.reserves = line.source.statement.reserves

theorem Moved.inPlace {distance : Nat} {line other : ObjectLine}
    (moved : line.Moved distance other) :
    line.InPlace distance other :=
  ⟨moved.address_eq, moved.code.length_eq, Statement.Alike.reserves_eq moved.alike⟩

/-- Whether the code of a line, read back, counts from the base. -/
def CountsFromBase (line : ObjectLine) : Prop :=
  ∃ code flags field rest,
    MachineCode.decode? .xe line.bytes = some (.format3 code flags field, rest) ∧ flags.b = true

structure Movable (symbols : SymbolTable) (based : Bool) (line : ObjectLine) : Prop where
  free : line.source.statement.extended = true →
    ∀ operand, line.source.statement.operand = some operand → operand.isImmediate = true →
    symbols.get? operand.key = none
  named : line.source.statement.operation = .directive .base →
    ∀ operand, line.source.statement.operand = some operand → (symbols.get? operand.key).isSome
  anchored : based = false → ∀ found, line.source.statement.operation = .machine found →
    found.format = .three → line.source.statement.extended = false → ¬line.CountsFromBase

/-- All lines can move; behind a `BASE` they may count from the base. -/
def AllMovable (symbols : SymbolTable) : Bool → List ObjectLine → Prop
  | _, [] => True
  | based, line :: rest =>
    line.Movable symbols based ∧ AllMovable symbols (based || line.source.statement.isBase) rest

variable {symbols : SymbolTable} {here next final there : Site} {line : ObjectLine}
  {lines : List ObjectLine} {size distance : Nat} {sizes : List Nat} {based : Bool}

/-- Lines can move if every one that counts from the base stands behind a `BASE`. -/
theorem allMovable_of_getElem
    (free : ∀ line ∈ lines, line.source.statement.extended = true →
      ∀ operand, line.source.statement.operand = some operand → operand.isImmediate = true →
      symbols.get? operand.key = none)
    (named : ∀ line ∈ lines, line.source.statement.operation = .directive .base →
      ∀ operand, line.source.statement.operand = some operand → (symbols.get? operand.key).isSome)
    (anchored : ∀ (position : Nat) (line : ObjectLine) (found : Instruction),
      lines[position]? = some line → line.source.statement.operation = .machine found →
      found.format = .three →
      line.source.statement.extended = false → line.CountsFromBase →
      based = true ∨ ∃ earlier < position, ∃ other : ObjectLine, lines[earlier]? = some other ∧
        other.source.statement.isBase = true) :
    AllMovable symbols based lines := by
  induction lines generalizing based with
  | nil => trivial
  | cons line rest ih =>
    obtain ⟨freeHere, freeRest⟩ := List.forall_mem_cons.mp free
    obtain ⟨namedHere, namedRest⟩ := List.forall_mem_cons.mp named
    refine ⟨⟨freeHere, namedHere, ?_⟩, ih freeRest namedRest ?_⟩
    · intro notBased found isMachine format plain counts
      rcases anchored 0 line found rfl isMachine format plain counts with
        known | ⟨earlier, early, _⟩
      · exact Bool.false_ne_true (notBased.symm.trans known)
      · exact Nat.not_lt_zero earlier early
    · intro position later found present isMachine format plain counts
      rcases anchored (position + 1) later found (by simpa using present) isMachine format plain
        counts with
        known | ⟨earlier, early, other, isThere, isBase⟩
      · exact .inl (by rw [known, Bool.true_or])
      · cases earlier with
        | zero =>
          obtain rfl : line = other := by simpa using isThere
          exact .inl (by rw [isBase, Bool.or_true])
        | succ earlier =>
          exact .inr ⟨earlier, by omega, other, by simpa using isThere, isBase⟩

/-- Code that does not count from the base when it is read back was not encoded so. -/
theorem Movable.statement (movable : line.Movable symbols based)
    (admissible : line.source.statement.Admissible .xe)
    (made : Made .xe symbols here line size next) :
    line.source.statement.Movable symbols based here where
  free := movable.free
  named := movable.named
  anchored := by
    intro notBased found flags field isMachine encoded format plain
    have catalogued := Machine.mem_instructions (isMachine ▸ admissible.operation_mem)
    obtain ⟨_, _, reference, small, same⟩ := Reference.of_format3 plain encoded
    cases same
    have generated := made.generated
    simp only [Statement.generate, isMachine, Encode.instruction_of_plain format plain, encoded]
      at generated
    have bytes : (MachineCode.format3 found.code flags field).bytes = line.bytes :=
      congrArg Generated.bytes (Except.ok.inj generated)
    have decoded := MachineCode.decode?_format3 catalogued reference.shown.ni_ne_zero
      (reference.extended_eq.trans plain) small []
    rw [List.append_nil, bytes] at decoded
    cases counts : flags.b with
    | false => rfl
    | true =>
      exact absurd ⟨_, flags, field, [], decoded, counts⟩
        (movable.anchored notBased found isMachine format plain)

/-- One line of a trail, moved. -/
theorem Made.moved {other : SourceLine} (made : Made .xe symbols here line size next)
    (alike : line.source.Alike other) (movable : line.source.statement.Movable symbols based here)
    (site : Site.Moved distance based here there)
    (room : there.address + 3 < Address.limit) (below : next.address + distance < Address.limit)
    (labels : ∀ name address, symbols.get? name = some address → address + distance < 0x100000) :
    ∃ otherLine otherNext, Made .xe (symbols.moved distance) there otherLine size otherNext ∧
      otherLine.source = other ∧ line.Moved distance otherLine ∧
      Site.Moved distance (based || line.source.statement.isBase) next otherNext := by
  obtain ⟨generated, generatedThere, code, base⟩ :=
    Statement.generate_moved movable site room labels made.generated
  have address := site.address_eq
  have following := made.next_eq
  refine ⟨⟨other, there.address, generated.bytes, generated.modification⟩,
    ⟨there.address + size, generated.base⟩, ⟨?_, rfl, ?_, rfl, ?_⟩, rfl, ⟨alike, ?_, code⟩, ?_,
    base⟩
  · exact (Statement.Alike.size_eq alike).trans made.size_eq
  · exact (Statement.Alike.generate_eq alike ..).trans generatedThere
  · simp only
    omega
  · rw [made.address_eq]
    exact address
  · simp only
    omega

theorem exists_of_mem_moved {others : List ObjectLine}
    (moved : List.Forall₂ (Moved distance) lines others) :
    ∀ other ∈ others, ∃ line ∈ lines, line.Moved distance other := by
  induction moved with
  | nil => simp
  | @cons line _ _ _ same _ ih =>
    refine List.forall_mem_cons.mpr ⟨⟨line, List.mem_cons_self, same⟩, fun other member => ?_⟩
    obtain ⟨found, present, moved⟩ := ih other member
    exact ⟨found, List.mem_cons_of_mem _ present, moved⟩

/-- The modifications move with their lines. -/
theorem filterMap_modification_moved {others : List ObjectLine}
    (moved : List.Forall₂ (Moved distance) lines others) :
    others.filterMap ObjectLine.modification =
      (lines.filterMap ObjectLine.modification).map (·.moved distance) := by
  induction moved with
  | nil => rfl
  | @cons line other _ _ same _ ih =>
    have modification := same.code.modification_eq
    cases named : line.modification with
    | none =>
      rw [named] at modification
      rw [List.filterMap_cons_none named, List.filterMap_cons_none modification, ih]
    | some field =>
      rw [named] at modification
      rw [List.filterMap_cons_some named, List.filterMap_cons_some modification, ih, List.map_cons]

/-- A trail whose lines can move is, moved, a trail over every program that is alike. -/
theorem Trail.moved (trail : Trail .xe symbols here lines sizes final)
    (admissible : ∀ line ∈ lines, line.source.statement.Admissible .xe)
    (movable : AllMovable symbols based lines) (site : Site.Moved distance based here there)
    (below : final.address + distance < 0x100000)
    (labels : ∀ name address, symbols.get? name = some address → address + distance < 0x100000)
    {others : List SourceLine}
    (alike : List.Forall₂ SourceLine.Alike (lines.map ObjectLine.source) others) :
    ∃ otherLines otherFinal, Trail .xe (symbols.moved distance) there otherLines sizes otherFinal ∧
      otherLines.map ObjectLine.source = others ∧
      List.Forall₂ (Moved distance) lines otherLines := by
  induction trail generalizing there based others with
  | nil site =>
    cases alike
    exact ⟨[], there, .nil there, rfl, .nil⟩
  | @cons here next final line rest size sizes made tail ih =>
    obtain ⟨other, otherRest, same, alikeRest, rfl⟩ := List.forall₂_cons_left_iff.mp alike
    obtain ⟨admissibleHere, admissibleRest⟩ := List.forall_mem_cons.mp admissible
    obtain ⟨movableHere, movableRest⟩ := movable
    have reached := tail.final_address
    have following := made.next_eq
    have address := site.address_eq
    have limit : Address.limit = 0x100000000 := rfl
    obtain ⟨otherLine, otherNext, otherMade, source, moved, otherSite⟩ :=
      made.moved same (movableHere.statement admissibleHere made) site (by omega) (by omega) labels
    obtain ⟨otherLines, otherFinal, otherTail, sources, movedRest⟩ :=
      ih admissibleRest movableRest otherSite below alikeRest
    refine ⟨otherLine :: otherLines, otherFinal, .cons otherMade otherTail, ?_,
      .cons moved movedRest⟩
    rw [List.map_cons, source, sources]

end ObjectLine

namespace Piece

/-- A piece and the same piece in a program that moved; its bytes may differ. -/
structure Moved (distance : Nat) (piece other : Piece) : Prop where
  address_eq : other.address = piece.address + distance
  length_eq : other.bytes.length = piece.bytes.length
  gap_eq : other.afterGap = piece.afterGap

/-- Lists of one length are cut at the same points. -/
theorem forall₂_chunksWith {length fuel : Nat} {bytes others : List UInt8}
    (same : others.length = bytes.length) :
    List.Forall₂ (fun part other => other.length = part.length) (chunksWith length fuel bytes)
      (chunksWith length fuel others) := by
  induction fuel generalizing bytes others with
  | zero => exact .nil
  | succ fuel ih =>
    cases bytes with
    | nil =>
      cases List.length_eq_zero_iff.mp same
      exact .nil
    | cons byte rest =>
      cases others with
      | nil => simp at same
      | cons other otherRest =>
        refine .cons ?_ (ih ?_)
        · rw [List.length_take, List.length_take, same]
        · rw [List.length_drop, List.length_drop, same]

private theorem forall₂_chunks {length : Nat} {bytes others : List UInt8}
    (same : others.length = bytes.length) :
    List.Forall₂ (fun part other => other.length = part.length) (chunks length bytes)
      (chunks length others) := by
  rw [chunks, chunks, same]
  exact forall₂_chunksWith same

private theorem forall₂_placed {distance : Nat} {parts others : List (List UInt8)}
    (same : List.Forall₂ (fun part other => other.length = part.length) parts others) (gap : Bool)
    (address : Nat) :
    List.Forall₂ (Moved distance) (placed gap address parts)
      (placed gap (address + distance) others) := by
  induction same generalizing gap address with
  | nil => exact .nil
  | @cons part other _ _ length _ ih =>
    have next : address + distance + other.length = address + part.length + distance := by omega
    rw [placed, placed, next]
    exact .cons ⟨rfl, length, rfl⟩ (ih false _)

/-- Lines in each other's places are cut at the same points, whatever their bytes are. -/
theorem forall₂_cut_of_inPlace {distance : Nat} {lines others : List ObjectLine}
    (inPlace : List.Forall₂ (ObjectLine.InPlace distance) lines others) (gap : Bool) :
    List.Forall₂ (Moved distance) (cut gap lines) (cut gap others) := by
  induction inPlace generalizing gap with
  | nil => exact .nil
  | @cons line other _ _ same _ ih =>
    have empty : other.bytes.isEmpty = line.bytes.isEmpty := by
      rw [Bool.eq_iff_iff, List.isEmpty_iff_length_eq_zero, List.isEmpty_iff_length_eq_zero,
        same.length_eq]
    rw [cut, cut, same.address_eq, empty, same.reserves_eq]
    exact List.rel_append (forall₂_placed (forall₂_chunks same.length_eq) gap line.address) (ih _)

/-- Lines that moved are cut into pieces that moved. -/
theorem forall₂_cut {distance : Nat} {lines others : List ObjectLine}
    (moved : List.Forall₂ (ObjectLine.Moved distance) lines others) (gap : Bool) :
    List.Forall₂ (Moved distance) (cut gap lines) (cut gap others) :=
  forall₂_cut_of_inPlace (moved.imp fun _ _ => ObjectLine.Moved.inPlace) gap

end Piece

structure TextRecord.Moved (distance : Nat) (record other : TextRecord) : Prop where
  start_eq : other.start = record.start + distance
  length_eq : other.bytes.length = record.bytes.length

structure TextBuffer.Moved (distance : Nat) (buffer other : TextBuffer) : Prop where
  start_eq : other.start = buffer.start + distance
  length_eq : other.bytes.length = buffer.bytes.length

namespace TextBuffer.Moved

variable {distance : Nat} {buffer other : TextBuffer} {piece otherPiece : Piece}

private theorem isEmpty_eq (moved : Moved distance buffer other) :
    other.bytes.isEmpty = buffer.bytes.isEmpty := by
  rw [Bool.eq_iff_iff, List.isEmpty_iff_length_eq_zero, List.isEmpty_iff_length_eq_zero,
    moved.length_eq]

theorem record? (moved : Moved distance buffer other) :
    List.Forall₂ (TextRecord.Moved distance) buffer.record?.toList other.record?.toList := by
  unfold TextBuffer.record?
  rw [moved.isEmpty_eq]
  split
  · exact .nil
  · exact .cons ⟨moved.start_eq, moved.length_eq⟩ .nil

private theorem fits_eq (moved : Moved distance buffer other)
    (pieces : piece.Moved distance otherPiece) :
    other.fits otherPiece.address otherPiece.bytes.length =
      buffer.fits piece.address piece.bytes.length := by
  have room : piece.address + distance + piece.bytes.length - (buffer.start + distance) =
      piece.address + piece.bytes.length - buffer.start := by omega
  rw [fits, fits, moved.isEmpty_eq, moved.start_eq, pieces.address_eq, pieces.length_eq, room]

theorem push (moved : Moved distance buffer other) (pieces : piece.Moved distance otherPiece) :
    Moved distance (buffer.push piece.address piece.bytes)
      (other.push otherPiece.address otherPiece.bytes) where
  start_eq := by
    rw [TextBuffer.push, TextBuffer.push, moved.isEmpty_eq, moved.start_eq, pieces.address_eq]
    split <;> rfl
  length_eq := by
    rw [TextBuffer.push, TextBuffer.push, List.length_append, List.length_append, moved.length_eq,
      pieces.length_eq]

theorem clear (moved : Moved distance buffer other) : Moved distance buffer.clear other.clear :=
  ⟨moved.start_eq, rfl⟩

end TextBuffer.Moved

/-- Pieces that moved are packed into records that moved. -/
theorem Piece.forall₂_pack {distance : Nat} {buffer other : TextBuffer} {pieces others : List Piece}
    (buffers : buffer.Moved distance other) (moved : List.Forall₂ (Moved distance) pieces others) :
    List.Forall₂ (TextRecord.Moved distance) (pack buffer pieces) (pack other others) := by
  induction moved generalizing buffer other with
  | nil => exact buffers.record?
  | cons movedPiece _ ih =>
    rw [pack, pack, movedPiece.gap_eq, buffers.fits_eq movedPiece]
    split
    · exact List.rel_append buffers.record? (ih (buffers.clear.push movedPiece))
    · exact ih (buffers.push movedPiece)

theorem TextRecord.map_moved {distance : Nat} {texts others : List TextRecord}
    (moved : List.Forall₂ (Moved distance) texts others) :
    others.map (fun text => (text.start, text.bytes.length)) =
      texts.map (fun text => (text.start + distance, text.bytes.length)) := by
  induction moved with
  | nil => rfl
  | cons same _ ih => rw [List.map_cons, List.map_cons, ih, same.start_eq, same.length_eq]

end SicAssembler
