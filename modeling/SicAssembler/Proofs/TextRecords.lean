import SicAssembler.ObjectProgram.Memory
import SicAssembler.Proofs.Generation

/-! # Text records hold the object code

A text buffer never looks whether new bytes are adjacent to those it holds. They are: pieces follow
one another without a hole unless memory was reserved between them, and then the record is closed
first. So packing keeps every byte at its address, and the records come out in the order of their
addresses, none of them empty or too long.
-/

namespace SicAssembler

/-- Object lines that stand one behind another between two addresses. Between the addresses of a
line and of the next one there is either its code or memory that it reserves. -/
inductive ObjectLine.Laid : Nat → List ObjectLine → Nat → Prop
  | nil (address : Nat) : Laid address [] address
  | code {line : ObjectLine} {rest : List ObjectLine} {finish : Nat} :
      line.source.statement.reserves = false →
      Laid (line.address + line.bytes.length) rest finish →
      Laid line.address (line :: rest) finish
  | reserved {line : ObjectLine} {rest : List ObjectLine} {size finish : Nat} :
      line.source.statement.reserves = true → line.bytes = [] →
      Laid (line.address + size) rest finish →
      Laid line.address (line :: rest) finish

/-- The lines of a trail are laid, if no code is too long for 32 bits. -/
theorem ObjectLine.Trail.laid {machine : Machine} {symbols : SymbolTable} {site final : Site}
    {lines : List ObjectLine} {sizes : List Nat}
    (trail : Trail machine symbols site lines sizes final)
    (admissible : ∀ line ∈ lines, line.source.statement.Admissible machine)
    (short : ∀ line ∈ lines, line.bytes.length < Address.limit) :
    Laid site.address lines final.address := by
  induction trail with
  | nil site => exact .nil site.address
  | @cons site next final line rest size sizes made _ ih =>
    obtain ⟨admissibleLine, admissibleRest⟩ := List.forall_mem_cons.mp admissible
    obtain ⟨shortLine, shortRest⟩ := List.forall_mem_cons.mp short
    obtain ⟨blank, filled, _⟩ :=
      Statement.length_of_generate admissibleLine made.size_eq made.generated
    have others := ih admissibleRest shortRest
    rw [made.next_eq, ← made.address_eq] at others
    rw [← made.address_eq]
    cases reserves : line.source.statement.reserves with
    | true => exact .reserved reserves (blank reserves) others
    | false =>
      have count : line.bytes.length = size := by
        rw [← filled reserves]
        exact (Nat.mod_eq_of_lt shortLine).symm
      exact .code reserves (count ▸ others)

/-- Laid lines end where they begin or later. -/
theorem ObjectLine.Laid.le {address finish : Nat} {lines : List ObjectLine}
    (laid : Laid address lines finish) : address ≤ finish := by
  induction laid with
  | nil => exact Nat.le_refl _
  | code _ _ ih => omega
  | reserved _ _ _ ih => omega

theorem ObjectLine.Laid.uncons {address finish : Nat} {line : ObjectLine} {rest : List ObjectLine}
    (laid : Laid address (line :: rest) finish) :
    address = line.address ∧
      ∃ next, line.address + line.bytes.length ≤ next ∧ Laid next rest finish := by
  cases laid with
  | code _ others => exact ⟨rfl, _, Nat.le_refl _, others⟩
  | reserved _ empty others =>
    refine ⟨rfl, _, ?_, others⟩
    rw [empty, List.length_nil]
    omega

theorem ObjectLine.Laid.bounds {address finish : Nat} {lines : List ObjectLine}
    (laid : Laid address lines finish) :
    ∀ line ∈ lines, address ≤ line.address ∧ line.address + line.bytes.length ≤ finish := by
  induction laid with
  | nil => simp
  | code _ others ih =>
    refine List.forall_mem_cons.mpr ⟨⟨Nat.le_refl _, others.le⟩, fun line member => ?_⟩
    have := ih line member
    omega
  | reserved _ empty others ih =>
    have behind := others.le
    refine List.forall_mem_cons.mpr ⟨⟨Nat.le_refl _, ?_⟩, fun line member => ?_⟩
    · rw [empty, List.length_nil]
      omega
    · have := ih line member
      omega

namespace Piece

def cells (piece : Piece) : List Cell := cellsFrom piece.address piece.bytes

/-- Parts placed one behind another, without a look at the limit. -/
def placed (gap : Bool) (address : Nat) : List (List UInt8) → List Piece
  | [] => []
  | bytes :: rest => ⟨address, bytes, gap⟩ :: placed false (address + bytes.length) rest

theorem place_eq_ok_iff {gap : Bool} {address : Nat} {parts : List (List UInt8)}
    {pieces : List Piece} :
    place gap address parts = .ok pieces ↔
      pieces = placed gap address parts ∧
        (parts ≠ [] → address + parts.flatten.length < Address.limit) := by
  induction parts generalizing gap address pieces with
  | nil => simp [place, placed, eq_comm]
  | cons part rest ih =>
    constructor
    · intro run
      obtain ⟨next, added, afterNext⟩ := exists_of_bind_eq_ok run
      obtain ⟨others, placedRest, rfl⟩ := exists_of_bind_pure_eq_ok afterNext
      obtain ⟨rfl, bound⟩ := Address.add_eq_ok_iff.mp added
      obtain ⟨rfl, boundRest⟩ := ih.mp placedRest
      refine ⟨rfl, fun _ => ?_⟩
      cases rest with
      | nil => simpa using bound
      | cons second more =>
        have := boundRest (by simp)
        rw [List.flatten_cons, List.length_append]
        omega
    · rintro ⟨rfl, bound⟩
      have total := bound (by simp)
      rw [List.flatten_cons, List.length_append] at total
      have added : Address.add address part.length = .ok (address + part.length) :=
        Address.add_eq_ok_iff.mpr ⟨rfl, by omega⟩
      have placedRest : place false (address + part.length) rest =
          .ok (placed false (address + part.length) rest) := ih.mpr ⟨rfl, fun _ => by omega⟩
      simp only [place, added, placedRest, bind, Except.bind]
      rfl

private theorem cells_placed (gap : Bool) (address : Nat) (parts : List (List UInt8)) :
    (placed gap address parts).flatMap cells = cellsFrom address parts.flatten := by
  induction parts generalizing gap address with
  | nil => rfl
  | cons part rest ih =>
    rw [placed, List.flatMap_cons, ih, List.flatten_cons, cellsFrom_append]
    rfl

theorem chunks_eq_nil_iff {bytes : List UInt8} : chunks maxTextBytes bytes = [] ↔ bytes = [] := by
  cases bytes with
  | nil => simp [chunks, chunksWith]
  | cons byte rest => simp [chunks, chunksWith]

private theorem isEmpty_placed_chunks (gap : Bool) (address : Nat) (bytes : List UInt8) :
    (placed gap address (chunks maxTextBytes bytes)).isEmpty = bytes.isEmpty := by
  cases bytes with
  | nil => rfl
  | cons byte rest => rfl

/-- The pieces of object lines, without a look at the limit. -/
def cut : Bool → List ObjectLine → List Piece
  | _, [] => []
  | gap, line :: rest =>
    placed gap line.address (chunks maxTextBytes line.bytes) ++
      cut ((gap && line.bytes.isEmpty) || line.source.statement.reserves) rest

/-- Lines are cut into pieces exactly if no code reaches beyond the limit. -/
theorem ofLines_eq_ok_iff {gap : Bool} {lines : List ObjectLine} {pieces : List Piece} :
    ofLines gap lines = .ok pieces ↔
      pieces = cut gap lines ∧
        ∀ line ∈ lines, line.bytes ≠ [] → line.address + line.bytes.length < Address.limit := by
  induction lines generalizing gap pieces with
  | nil => simp [ofLines, cut, eq_comm]
  | cons line rest ih =>
    have joined := flatten_chunks (show 0 < maxTextBytes by decide) line.bytes
    constructor
    · intro run
      obtain ⟨front, placedFront, afterFront⟩ := exists_of_bind_eq_ok run
      obtain ⟨back, cutRest, rfl⟩ := exists_of_bind_pure_eq_ok afterFront
      obtain ⟨rfl, bound⟩ := place_eq_ok_iff.mp (atLine_eq_ok_iff.mp placedFront)
      obtain ⟨rfl, boundRest⟩ := ih.mp cutRest
      rw [joined] at bound
      refine ⟨by rw [cut, isEmpty_placed_chunks],
        List.forall_mem_cons.mpr ⟨fun present => ?_, boundRest⟩⟩
      exact bound (mt chunks_eq_nil_iff.mp present)
    · rintro ⟨rfl, bounds⟩
      obtain ⟨bound, boundRest⟩ := List.forall_mem_cons.mp bounds
      have front : place gap line.address (chunks maxTextBytes line.bytes) =
          .ok (placed gap line.address (chunks maxTextBytes line.bytes)) := by
        refine place_eq_ok_iff.mpr ⟨rfl, fun present => ?_⟩
        rw [joined]
        exact bound (mt chunks_eq_nil_iff.mpr present)
      simp only [ofLines, front, atLine_ok, bind, Except.bind, isEmpty_placed_chunks,
        ih.mpr ⟨rfl, boundRest⟩]
      rfl

/-- Cutting keeps every byte at its address. -/
theorem cells_cut (gap : Bool) (lines : List ObjectLine) :
    (cut gap lines).flatMap cells = lines.flatMap ObjectLine.cells := by
  induction lines generalizing gap with
  | nil => rfl
  | cons line rest ih =>
    rw [cut, List.flatMap_append, cells_placed, flatten_chunks (by decide), ih]
    rfl

/-- Pieces that follow one another behind a cursor. Only a reservation leaves a hole. -/
inductive Chain : Nat → List Piece → Nat → Prop
  | nil {cursor finish : Nat} : cursor ≤ finish → Chain cursor [] finish
  | cons {cursor finish : Nat} {piece : Piece} {rest : List Piece} :
      cursor ≤ piece.address → (piece.afterGap = false → piece.address = cursor) →
      0 < piece.bytes.length → piece.bytes.length ≤ maxTextBytes →
      Chain (piece.address + piece.bytes.length) rest finish → Chain cursor (piece :: rest) finish

theorem Chain.placed_append {address finish : Nat} {parts : List (List UInt8)} {others : List Piece}
    (fitting : ∀ part ∈ parts, 0 < part.length ∧ part.length ≤ maxTextBytes)
    (chain : Chain (address + parts.flatten.length) others finish) :
    Chain address (placed false address parts ++ others) finish := by
  induction parts generalizing address with
  | nil => simpa [placed] using chain
  | cons part rest ih =>
    obtain ⟨fits, fitsRest⟩ := List.forall_mem_cons.mp fitting
    refine .cons (Nat.le_refl _) (fun _ => rfl) fits.1 fits.2 (ih fitsRest ?_)
    simpa [Nat.add_assoc] using chain

/-- The pieces of laid lines form a chain. The cursor is the end of the last piece: it lags behind
the address of the next line exactly while a gap is open. -/
theorem Chain.cut {address finish : Nat} {lines : List ObjectLine}
    (laid : ObjectLine.Laid address lines finish) {cursor : Nat} {gap : Bool}
    (behind : cursor ≤ address) (adjacent : gap = false → address = cursor) :
    Chain cursor (cut gap lines) finish := by
  induction laid generalizing cursor gap with
  | nil => exact .nil behind
  | @code line rest finish notReserved others ih =>
    unfold Piece.cut
    rw [notReserved, Bool.or_false]
    cases parts : chunks maxTextBytes line.bytes with
    | nil =>
      have empty := chunks_eq_nil_iff.mp parts
      rw [empty, List.isEmpty_nil, Bool.and_true]
      rw [empty, List.length_nil, Nat.add_zero] at ih
      exact ih behind adjacent
    | cons part more =>
      have fitting := length_of_mem_chunks (show 0 < maxTextBytes by decide) line.bytes
      have joined := flatten_chunks (show 0 < maxTextBytes by decide) line.bytes
      rw [parts] at fitting joined
      obtain ⟨fits, fitsMore⟩ := List.forall_mem_cons.mp fitting
      have present : line.bytes.isEmpty = false := by
        rw [List.isEmpty_eq_false_iff, ← joined]
        intro none
        rw [List.flatten_cons, List.append_eq_nil_iff] at none
        exact absurd none.1 (List.length_pos_iff.mp fits.1)
      rw [present, Bool.and_false]
      refine .cons behind adjacent fits.1 fits.2 (Chain.placed_append fitsMore ?_)
      have count : part.length + more.flatten.length = line.bytes.length := by
        rw [← joined, List.flatten_cons, List.length_append]
      have following : Chain (line.address + line.bytes.length) (Piece.cut false rest) finish :=
        ih (Nat.le_refl _) fun _ => rfl
      rw [Nat.add_assoc, count]
      exact following
  | reserved reserves empty _ ih =>
    unfold Piece.cut
    rw [empty, reserves, Bool.or_true]
    exact ih (by omega) (by simp)

end Piece

/-- A buffer that ends at a cursor and is not too long, or is empty. -/
def TextBuffer.Ready (buffer : TextBuffer) (cursor : Nat) : Prop :=
  buffer.bytes ≠ [] →
    buffer.start + buffer.bytes.length = cursor ∧ buffer.bytes.length ≤ maxTextBytes

theorem TextBuffer.ready_of_piece {piece : Piece} (fits : piece.bytes.length ≤ maxTextBytes) :
    TextBuffer.Ready ⟨piece.address, piece.bytes⟩ (piece.address + piece.bytes.length) :=
  fun _ => ⟨rfl, fits⟩

theorem TextBuffer.ready_empty (start cursor : Nat) : TextBuffer.Ready { start := start } cursor :=
  fun present => absurd rfl present

/-- A buffer goes on with bytes that begin where it ends. -/
theorem TextBuffer.Ready.join {buffer : TextBuffer} {cursor : Nat} (ready : buffer.Ready cursor)
    (present : buffer.bytes ≠ []) {piece : Piece} (here : piece.address = cursor)
    (total : buffer.bytes.length + piece.bytes.length ≤ maxTextBytes) :
    TextBuffer.Ready ⟨buffer.start, buffer.bytes ++ piece.bytes⟩
      (piece.address + piece.bytes.length) := by
  intro _
  have endsAt := (ready present).1
  simp only [List.length_append]
  exact ⟨by omega, total⟩

namespace Piece

/-- What one piece does to a buffer: it opens a new record behind the finished one, because memory
was reserved or the record would get too long; it opens the first one; or it goes on with the record
where that ended. -/
theorem pack_cons_cases {buffer : TextBuffer} {cursor : Nat} (ready : buffer.Ready cursor)
    {piece : Piece} (adjacent : piece.afterGap = false → piece.address = cursor)
    (rest : List Piece) :
    (buffer.bytes ≠ [] ∧
      (piece.afterGap = true ∨ maxTextBytes < buffer.bytes.length + piece.bytes.length) ∧
      pack buffer (piece :: rest) =
        ⟨buffer.start, buffer.bytes⟩ :: pack ⟨piece.address, piece.bytes⟩ rest) ∨
    (buffer.bytes = [] ∧
      pack buffer (piece :: rest) = pack ⟨piece.address, piece.bytes⟩ rest) ∨
    (buffer.bytes ≠ [] ∧ piece.afterGap = false ∧ piece.address = cursor ∧
      buffer.bytes.length + piece.bytes.length ≤ maxTextBytes ∧
      pack buffer (piece :: rest) = pack ⟨buffer.start, buffer.bytes ++ piece.bytes⟩ rest) := by
  obtain ⟨start, bytes⟩ := buffer
  cases bytes with
  | nil =>
    refine .inr (.inl ⟨rfl, ?_⟩)
    simp [pack, TextBuffer.record?, TextBuffer.push, TextBuffer.clear]
  | cons byte more =>
    obtain ⟨endsAt, short⟩ := ready (List.cons_ne_nil byte more)
    dsimp only at endsAt
    -- Where the piece begins at the cursor, the span of the record counts its bytes.
    have fits_iff (atCursor : piece.address = cursor) :
        TextBuffer.fits ⟨start, byte :: more⟩ piece.address piece.bytes.length = true ↔
          (byte :: more).length + piece.bytes.length ≤ maxTextBytes := by
      simp only [TextBuffer.fits, List.isEmpty_cons, Bool.false_eq_true, if_false,
        decide_eq_true_eq]
      omega
    by_cases breaks : (piece.afterGap ||
        !TextBuffer.fits ⟨start, byte :: more⟩ piece.address piece.bytes.length) = true
    · refine .inl ⟨List.cons_ne_nil byte more, ?_, ?_⟩
      · cases gap : piece.afterGap with
        | true => exact .inl rfl
        | false =>
          rw [gap, Bool.false_or, Bool.not_eq_true'] at breaks
          refine .inr (Nat.lt_of_not_le fun total => ?_)
          exact absurd ((fits_iff (adjacent gap)).mpr total) (Bool.eq_false_iff.mp breaks)
      · simp [pack, breaks, TextBuffer.record?, TextBuffer.push, TextBuffer.clear]
    · simp only [Bool.or_eq_true, not_or, Bool.not_eq_true, Bool.not_eq_false'] at breaks
      have atCursor := adjacent breaks.1
      refine .inr (.inr ⟨List.cons_ne_nil byte more, breaks.1, atCursor,
        (fits_iff atCursor).mp breaks.2, ?_⟩)
      simp [pack, breaks, TextBuffer.push]

/-- Packing keeps every byte at its address. -/
theorem cells_pack {buffer : TextBuffer} {cursor finish : Nat} {pieces : List Piece}
    (ready : buffer.Ready cursor) (chain : Chain cursor pieces finish) :
    (pack buffer pieces).flatMap TextRecord.cells =
      cellsFrom buffer.start buffer.bytes ++ pieces.flatMap cells := by
  induction chain generalizing buffer with
  | nil =>
    unfold pack TextBuffer.record?
    split
    · next empty => simp [List.isEmpty_iff.mp empty]
    · simp [TextRecord.cells]
  | @cons cursor finish piece rest _ adjacent _ fits _ ih =>
    rw [List.flatMap_cons]
    rcases pack_cons_cases ready adjacent rest with
      ⟨_, _, packed⟩ | ⟨empty, packed⟩ | ⟨present, _, here, total, packed⟩
    · rw [packed, List.flatMap_cons, ih (TextBuffer.ready_of_piece fits)]
      rfl
    · rw [packed, ih (TextBuffer.ready_of_piece fits), empty]
      rfl
    · rw [packed, ih (ready.join present here total), cellsFrom_append, (ready present).1, ← here,
        List.append_assoc]
      rfl

end Piece

/-- Records that follow one another between two addresses, neither empty nor too long. -/
inductive TextRecord.Ordered : Nat → List TextRecord → Nat → Prop
  | nil {low high : Nat} : low ≤ high → Ordered low [] high
  | cons {low high : Nat} {record : TextRecord} {rest : List TextRecord} :
      low ≤ record.start → 0 < record.bytes.length → record.bytes.length ≤ maxTextBytes →
      Ordered (record.start + record.bytes.length) rest high → Ordered low (record :: rest) high

/-- Packing a chain gives ordered records. They begin with the bytes in the buffer, if it holds
any. -/
theorem TextRecord.Ordered.pack {buffer : TextBuffer} {cursor finish : Nat} {pieces : List Piece}
    (ready : buffer.Ready cursor) (chain : Piece.Chain cursor pieces finish) {low : Nat}
    (below : if buffer.bytes = [] then low ≤ cursor else low ≤ buffer.start) :
    Ordered low (Piece.pack buffer pieces) finish := by
  induction chain generalizing buffer low with
  | nil reached =>
    unfold Piece.pack TextBuffer.record?
    by_cases empty : buffer.bytes = []
    · rw [if_pos empty] at below
      simpa [empty] using Ordered.nil (Nat.le_trans below reached)
    · rw [if_neg empty] at below
      obtain ⟨endsAt, short⟩ := ready empty
      have last : Ordered low [⟨buffer.start, buffer.bytes⟩] _ :=
        .cons below (List.length_pos_iff.mpr empty) short (.nil (endsAt ▸ reached))
      simpa [empty] using last
  | @cons cursor finish piece rest behind adjacent positive fits _ ih =>
    have pieceReady := TextBuffer.ready_of_piece fits
    have pieceBelow {bound : Nat} (reached : bound ≤ piece.address) :
        if piece.bytes = [] then bound ≤ piece.address + piece.bytes.length
        else bound ≤ piece.address := by
      rw [if_neg (List.length_pos_iff.mp positive)]
      exact reached
    rcases Piece.pack_cons_cases ready adjacent rest with
      ⟨present, _, packed⟩ | ⟨empty, packed⟩ | ⟨present, _, here, total, packed⟩
    · rw [if_neg present] at below
      obtain ⟨endsAt, short⟩ := ready present
      rw [packed]
      refine .cons below (List.length_pos_iff.mpr present) short (ih pieceReady ?_)
      exact pieceBelow (endsAt ▸ behind)
    · rw [if_pos empty] at below
      rw [packed]
      exact ih pieceReady (pieceBelow (Nat.le_trans below behind))
    · rw [if_neg present] at below
      rw [packed]
      refine ih (ready.join present here total) ?_
      rw [if_neg (by simp [present])]
      exact below

namespace TextRecord.Ordered

variable {low high : Nat} {records : List TextRecord}

private theorem le (ordered : Ordered low records high) : low ≤ high := by
  induction ordered with
  | nil reached => exact reached
  | cons reached _ _ _ ih => omega

theorem bounds (ordered : Ordered low records high) :
    ∀ record ∈ records, low ≤ record.start ∧ record.start + record.bytes.length ≤ high ∧
      0 < record.bytes.length ∧ record.bytes.length ≤ maxTextBytes := by
  induction ordered with
  | nil => simp
  | cons reached positive short others ih =>
    refine List.forall_mem_cons.mpr ⟨⟨reached, others.le, positive, short⟩, fun record member => ?_⟩
    obtain ⟨least, rest⟩ := ih record member
    exact ⟨by omega, rest⟩

theorem pairwise (ordered : Ordered low records high) :
    records.Pairwise fun left right => left.start + left.bytes.length ≤ right.start := by
  induction ordered with
  | nil => exact List.Pairwise.nil
  | cons _ _ _ others ih =>
    exact List.Pairwise.cons (fun record member => (others.bounds record member).1) ih

end TextRecord.Ordered

end SicAssembler
