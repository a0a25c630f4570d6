import Mathlib.Data.List.Chain
import SicAssembler.Proofs.Loading

/-! # Where text records are broken

The items of a program are the codes of its statements, cut where one is too long for a record. A
record takes item after item. It is closed only where it has to be: in front of an item that makes
it too long, or that stands behind reserved memory. The packing decides this by addresses and by a
mark that is carried over statements without code; here it is said by counting bytes and by the
statements that stand between two items.
-/

namespace SicAssembler

/-- Parts of a list in order. All of them are full, except that the last one may be shorter. -/
inductive Sliced (length : Nat) : List UInt8 → List (List UInt8) → Prop
  | none : Sliced length [] []
  | last {part : List UInt8} : part ≠ [] → part.length ≤ length → Sliced length part [part]
  | full {part rest : List UInt8} {parts : List (List UInt8)} :
      part.length = length → rest ≠ [] → Sliced length rest parts →
      Sliced length (part ++ rest) (part :: parts)

private theorem sliced_chunksWith {length : Nat} (positive : 0 < length) (fuel : Nat)
    (items : List UInt8)
    (enough : items.length ≤ fuel) : Sliced length items (Piece.chunksWith length fuel items) := by
  induction fuel generalizing items with
  | zero =>
    obtain rfl := List.length_eq_zero_iff.mp (Nat.le_zero.mp enough)
    exact .none
  | succ fuel ih =>
    cases items with
    | nil => exact .none
    | cons item rest =>
      have shorter : ((item :: rest).drop length).length ≤ fuel := by
        simp only [List.length_drop, List.length_cons] at enough ⊢
        omega
      rw [Piece.chunksWith]
      by_cases short : (item :: rest).length ≤ length
      · rw [List.take_of_length_le short, List.drop_of_length_le short]
        cases fuel <;> exact .last (List.cons_ne_nil _ _) short
      · have long := Nat.lt_of_not_le short
        have joined := List.take_append_drop length (item :: rest)
        have sliced : Sliced length ((item :: rest).take length ++ (item :: rest).drop length) _ :=
          .full (List.length_take_of_le (Nat.le_of_lt long)) (by simpa using long) (ih _ shorter)
        rwa [joined] at sliced

private theorem sliced_chunks (bytes : List UInt8) :
    Sliced maxTextBytes bytes (Piece.chunks maxTextBytes bytes) :=
  sliced_chunksWith (by decide) bytes.length bytes (Nat.le_refl _)

/-- Bytes that stay together, and the position of their statement in the program. -/
structure Item where
  position : Nat
  bytes : List UInt8
deriving DecidableEq, Repr

/-- A statement at a position from `low` on and below `high` reserves memory, maybe none. -/
def SourceLine.ReservedIn (program : List SourceLine) (low high : Nat) : Prop :=
  ∃ (position : Nat) (line : SourceLine), program[position]? = some line ∧
    line.statement.reserves = true ∧ low ≤ position ∧ position < high

namespace SourceLine

variable {program : List SourceLine} {low high : Nat}

private theorem not_reservedIn_of_le (empty : high ≤ low) : ¬ ReservedIn program low high := by
  rintro ⟨position, _, _, _, below, above⟩
  omega

private theorem reservedIn_succ_iff {line : SourceLine} (present : program[high]? = some line)
    (below : low ≤ high) :
    ReservedIn program low (high + 1) ↔
      ReservedIn program low high ∨ line.statement.reserves = true := by
  constructor
  · rintro ⟨position, other, found, reserves, atLeast, atMost⟩
    by_cases last : position = high
    · subst last
      rw [present] at found
      cases found
      exact .inr reserves
    · exact .inl ⟨position, other, found, reserves, atLeast, by omega⟩
  · rintro (⟨position, other, found, reserves, atLeast, atMost⟩ | reserves)
    · exact ⟨position, other, found, reserves, atLeast, by omega⟩
    · exact ⟨high, line, present, reserves, below, by omega⟩

end SourceLine

namespace Item

/-- The items of the codes of consecutive statements, of which the first has the given position. -/
def ofCodes : Nat → List (List UInt8) → List Item
  | _, [] => []
  | position, code :: rest =>
    (Piece.chunks maxTextBytes code).map (⟨position, ·⟩) ++ ofCodes (position + 1) rest

def join (items : List Item) : List UInt8 := items.flatMap Item.bytes

/-- A record of items has to be closed in front of the next item: memory is reserved between the
statement of its last item and the statement of the next one, or there are too many bytes. -/
def Breaks (program : List SourceLine) (held : List Item) (next : Item) : Prop :=
  (∃ last, held.getLast? = some last ∧
    SourceLine.ReservedIn program (last.position + 1) next.position) ∨
  maxTextBytes < (join held).length + next.bytes.length

/-- Items that are grouped from left to right, behind the items that the first group holds
already. -/
inductive Grouped (program : List SourceLine) : List Item → List Item → List (List Item) → Prop
  | finish (held : List Item) : Grouped program held [] [held]
  | join {held rest : List Item} {item : Item} {groups : List (List Item)} :
      ¬ Breaks program held item → Grouped program (held ++ [item]) rest groups →
      Grouped program held (item :: rest) groups
  | split {held rest : List Item} {item : Item} {groups : List (List Item)} :
      Breaks program held item → Grouped program [item] rest groups →
      Grouped program held (item :: rest) (held :: groups)

/-- No item of a group has to be separated from those in front of it. -/
def Unbroken (program : List SourceLine) (group : List Item) : Prop :=
  ∀ held next behind, group = held ++ next :: behind → held ≠ [] → ¬ Breaks program held next

variable {program : List SourceLine} {held items : List Item} {groups : List (List Item)}

private theorem unbroken_singleton (item : Item) : Unbroken program [item] := by
  intro held next behind same present
  have count := congrArg List.length same
  have := List.length_pos_iff.mpr present
  simp only [List.length_append, List.length_cons, List.length_nil] at count
  omega

theorem Unbroken.append_singleton {item : Item} (unbroken : Unbroken program held)
    (joins : ¬ Breaks program held item) : Unbroken program (held ++ [item]) := by
  intro front next behind same present
  rcases List.eq_nil_or_concat behind with rfl | ⟨init, last, rfl⟩
  · obtain ⟨rfl, single⟩ := List.append_inj' same rfl
    cases single
    exact joins
  · rw [List.concat_eq_append, ← List.cons_append, ← List.append_assoc] at same
    obtain ⟨rfl, _⟩ := List.append_inj' same rfl
    exact unbroken front next init rfl present

namespace Grouped

/-- The first group begins with the items that it held. -/
theorem head (grouped : Grouped program held items groups) :
    ∃ more others, groups = (held ++ more) :: others := by
  induction grouped with
  | finish held => exact ⟨[], [], by simp⟩
  | @join held _ item _ _ _ ih =>
    obtain ⟨more, others, rfl⟩ := ih
    exact ⟨item :: more, others, by simp⟩
  | @split held _ _ groups _ _ _ => exact ⟨[], groups, by simp⟩

theorem flatten (grouped : Grouped program held items groups) : groups.flatten = held ++ items := by
  induction grouped with
  | finish held => simp
  | join _ _ ih => simp [ih]
  | split _ _ ih => simp [ih]

theorem ne_nil (grouped : Grouped program held items groups) (present : held ≠ []) :
    ∀ group ∈ groups, group ≠ [] := by
  induction grouped with
  | finish held => exact List.forall_mem_singleton.mpr present
  | join _ _ ih => exact ih (by simp)
  | split _ _ ih => exact List.forall_mem_cons.mpr ⟨present, ih (List.cons_ne_nil _ _)⟩

theorem unbroken (grouped : Grouped program held items groups) (within : Unbroken program held) :
    ∀ group ∈ groups, Unbroken program group := by
  induction grouped with
  | finish held => exact List.forall_mem_singleton.mpr within
  | join joins _ ih => exact ih (within.append_singleton joins)
  | split _ _ ih => exact List.forall_mem_cons.mpr ⟨within, ih (unbroken_singleton _)⟩

/-- Two groups are separated only where the first one has to be closed. -/
theorem isChain (grouped : Grouped program held items groups) :
    groups.IsChain fun held following =>
      ∃ next, following.head? = some next ∧ Breaks program held next := by
  induction grouped with
  | finish held => exact .singleton held
  | join _ _ ih => exact ih
  | split breaks others ih =>
    obtain ⟨more, groups, rfl⟩ := others.head
    exact .cons_cons ⟨_, rfl, breaks⟩ ih

end Grouped

/-- Pieces and the items that they are made of. A piece is marked exactly if memory is reserved
between the statement of the item and the statement of the item before it, which is the one in front
of position `low`. -/
inductive Tagged (program : List SourceLine) : Nat → List Piece → List Item → Prop
  | nil (low : Nat) : Tagged program low [] []
  | cons {low : Nat} {piece : Piece} {item : Item} {pieces : List Piece} {items : List Item} :
      piece.bytes = item.bytes →
      (piece.afterGap = true ↔ SourceLine.ReservedIn program low item.position) →
      Tagged program (item.position + 1) pieces items →
      Tagged program low (piece :: pieces) (item :: items)

/-- Nothing stands between two parts of one code. -/
theorem Tagged.placed_append {position address : Nat} {parts : List (List UInt8)}
    {pieces : List Piece} (tagged : Tagged program (position + 1) pieces items) :
    Tagged program (position + 1) (Piece.placed false address parts ++ pieces)
      (parts.map (⟨position, ·⟩) ++ items) := by
  induction parts generalizing address with
  | nil => exact tagged
  | cons part rest ih =>
    refine .cons rfl (iff_of_false Bool.false_ne_true ?_) ih
    exact SourceLine.not_reservedIn_of_le (Nat.le_succ position)

/-- The mark that is carried along tells of a reservation since the last item. -/
theorem Tagged.cut {lines : List ObjectLine} {low base : Nat} {gap : Bool}
    (blank : ∀ line ∈ lines, line.source.statement.reserves = true → line.bytes = [])
    (suffix : program.drop base = lines.map ObjectLine.source) (below : low ≤ base)
    (mark : gap = true ↔ SourceLine.ReservedIn program low base) :
    Tagged program low (Piece.cut gap lines) (ofCodes base (lines.map ObjectLine.bytes)) := by
  induction lines generalizing low base gap with
  | nil => exact .nil low
  | cons line rest ih =>
    obtain ⟨blankLine, blankRest⟩ := List.forall_mem_cons.mp blank
    have present : program[base]? = some line.source := by
      rw [← Nat.add_zero base, ← List.getElem?_drop, suffix]
      rfl
    have suffixRest : program.drop (base + 1) = rest.map ObjectLine.source := by
      rw [← List.drop_drop, suffix]
      rfl
    have step := SourceLine.reservedIn_succ_iff present below
    rw [List.map_cons, ofCodes, Piece.cut]
    cases parts : Piece.chunks maxTextBytes line.bytes with
    | nil =>
      have empty := Piece.chunks_eq_nil_iff.mp parts
      refine ih blankRest suffixRest (Nat.le_succ_of_le below) ?_
      rw [step, ← mark, empty, List.isEmpty_nil, Bool.and_true, Bool.or_eq_true]
    | cons part more =>
      have present : line.bytes ≠ [] := by
        intro empty
        rw [Piece.chunks_eq_nil_iff.mpr empty] at parts
        contradiction
      have notReserved : line.source.statement.reserves = false :=
        Bool.eq_false_iff.mpr fun reserves => present (blankLine reserves)
      have unmarked : ((gap && line.bytes.isEmpty) || line.source.statement.reserves) = false := by
        simp [present, notReserved]
      refine .cons rfl mark (Tagged.placed_append ?_)
      rw [unmarked]
      refine ih blankRest suffixRest (Nat.le_refl _) (iff_of_false Bool.false_ne_true ?_)
      exact SourceLine.not_reservedIn_of_le (Nat.le_refl _)

private theorem join_append_singleton (held : List Item) (item : Item) :
    join (held ++ [item]) = join held ++ item.bytes := by
  simp [join]

/-- Packing groups the items. The buffer has the bytes of the items that are held, the last of which
stands in front of position `low`. -/
theorem exists_grouped {buffer : TextBuffer} {cursor finish low : Nat} {pieces : List Piece}
    (ready : buffer.Ready cursor) (chain : Piece.Chain cursor pieces finish)
    (tagged : Tagged program low pieces items) (present : buffer.bytes ≠ [])
    (holds : buffer.bytes = join held)
    (behind : ∃ last, held.getLast? = some last ∧ low = last.position + 1) :
    ∃ groups, Grouped program held items groups ∧
      (Piece.pack buffer pieces).map TextRecord.bytes = groups.map join := by
  induction chain generalizing buffer held low items with
  | nil =>
    cases tagged
    refine ⟨[held], .finish held, ?_⟩
    rw [List.map_singleton, ← holds]
    simp [Piece.pack, TextBuffer.record?, present]
  | @cons cursor finish piece rest _ adjacent positive fits _ ih =>
    cases tagged with
    | @cons _ _ item _ others bytes mark tagged =>
      have opens : ∃ groups, Grouped program [item] others groups ∧
          (Piece.pack ⟨piece.address, piece.bytes⟩ rest).map TextRecord.bytes = groups.map join :=
        ih (TextBuffer.ready_of_piece fits) tagged (List.length_pos_iff.mp positive)
          (by simp [join, bytes]) ⟨item, rfl, rfl⟩
      obtain ⟨last, isLast, rfl⟩ := behind
      rcases Piece.pack_cons_cases ready adjacent rest with
        ⟨_, reason, packed⟩ | ⟨empty, _⟩ | ⟨_, unmarked, here, total, packed⟩
      · obtain ⟨groups, grouped, same⟩ := opens
        refine ⟨held :: groups, .split ?_ grouped, by rw [packed, List.map_cons, same, holds]; rfl⟩
        rw [mark, holds, bytes] at reason
        exact reason.imp_left fun reserved => ⟨last, isLast, reserved⟩
      · exact absurd empty present
      · obtain ⟨groups, grouped, same⟩ := ih (ready.join present here total) tagged
          (by simp [present]) (by rw [join_append_singleton, holds, bytes])
          ⟨item, List.getLast?_concat, rfl⟩
        refine ⟨groups, .join ?_ grouped, by rw [packed, same]⟩
        rintro (⟨other, isLastToo, reserved⟩ | long)
        · obtain rfl := Option.some.inj (isLast.symm.trans isLastToo)
          rw [mark.mpr reserved] at unmarked
          contradiction
        · rw [holds, bytes] at total
          omega

/-- The records of a chain of pieces are the groups of its items. -/
theorem exists_groups {start cursor finish low : Nat} {pieces : List Piece}
    (chain : Piece.Chain cursor pieces finish) (tagged : Tagged program low pieces items) :
    ∃ groups : List (List Item), groups.flatten = items ∧
      (Piece.pack { start := start } pieces).map TextRecord.bytes = groups.map join ∧
      (∀ group ∈ groups, group ≠ [] ∧ Unbroken program group) ∧
      groups.IsChain fun held following =>
        ∃ next, following.head? = some next ∧ Breaks program held next := by
  cases tagged with
  | nil => exact ⟨[], rfl, rfl, by simp, .nil⟩
  | @cons _ piece item rest others bytes _ tagged =>
    cases chain with
    | cons _ adjacent positive fits chain =>
      obtain ⟨groups, grouped, same⟩ := exists_grouped (TextBuffer.ready_of_piece fits) chain tagged
        (List.length_pos_iff.mp positive) (show _ = join [item] by simp [join, bytes])
        ⟨item, rfl, rfl⟩
      refine ⟨groups, grouped.flatten, ?_, fun group member => ?_, grouped.isChain⟩
      · rw [← same]
        simp [Piece.pack, TextBuffer.record?, TextBuffer.push, TextBuffer.clear]
      · exact ⟨grouped.ne_nil (List.cons_ne_nil _ _) group member,
          grouped.unbroken (unbroken_singleton item) group member⟩

end Item

theorem ObjectLine.Laid.blank {address finish : Nat} {lines : List ObjectLine}
    (laid : Laid address lines finish) :
    ∀ line ∈ lines, line.source.statement.reserves = true → line.bytes = [] := by
  induction laid with
  | nil => simp
  | code notReserved _ ih =>
    refine List.forall_mem_cons.mpr ⟨fun reserves => ?_, ih⟩
    rw [notReserved] at reserves
    contradiction
  | reserved _ empty _ ih => exact List.forall_mem_cons.mpr ⟨fun _ => empty, ih⟩

/-- Text records are broken only where they must be. The listing has an entry for each statement
through `END`. Cut the codes of its entries into parts of 30 bytes, the last one shorter: then each
text record holds one group of consecutive parts, none of them empty. Inside a group, no part has to
be separated from the ones in front of it; and the first part of a group has to be separated from
the group in front of it, because memory is reserved between the two or because there would be more
than 30 bytes. -/
theorem records_break_only_where_needed {state after : Assembler} {texts : List String}
    {program : ObjectProgram} (made : state.assemble texts = (.ok program, after)) :
    ∃ (source : List SourceLine) (groups : List (List Item)),
      SourceLine.parseAll state.machine texts = .ok source ∧
      after.listing.map ListingLine.line = (SourceLine.throughEnd source).map SourceLine.line ∧
      (∀ entry ∈ after.listing,
        Sliced maxTextBytes entry.bytes (Piece.chunks maxTextBytes entry.bytes)) ∧
      groups.flatten = Item.ofCodes 0 (after.listing.map ListingLine.bytes) ∧
      program.texts.map TextRecord.bytes = groups.map Item.join ∧
      (∀ record ∈ program.texts, record.bytes ≠ []) ∧
      (∀ group ∈ groups, group ≠ [] ∧ Item.Unbroken (SourceLine.throughEnd source) group) ∧
      groups.IsChain fun held following => ∃ next, following.head? = some next ∧
        Item.Breaks (SourceLine.throughEnd source) held next := by
  obtain ⟨source, lines, sizes, final, assembly⟩ := Assembler.assemble_eq_ok_iff.mp made
  have codes : after.listing.map ListingLine.bytes = lines.map ObjectLine.bytes := by
    rw [assembly.listing_eq, List.map_map]
    exact List.map_congr_left fun line _ => ListingLine.bytes_ofObjectLine line
  have numbers : after.listing.map ListingLine.line =
      (SourceLine.throughEnd source).map SourceLine.line := by
    rw [assembly.listing_eq, ← assembly.sources_eq, List.map_map, List.map_map]
    rfl
  have tagged : Item.Tagged (SourceLine.throughEnd source) 0 (Piece.cut false lines)
      (Item.ofCodes 0 (lines.map ObjectLine.bytes)) := by
    refine Item.Tagged.cut assembly.laid.blank assembly.sources_eq.symm (Nat.le_refl 0) ?_
    exact iff_of_false Bool.false_ne_true (SourceLine.not_reservedIn_of_le (Nat.le_refl 0))
  obtain ⟨groups, flat, packed, unbroken, separated⟩ := Item.exists_groups assembly.chain tagged
  refine ⟨source, groups, assembly.parsed, numbers, fun entry _ => sliced_chunks entry.bytes,
    codes ▸ flat, ?_, fun record member => ?_, unbroken, separated⟩
  · rw [assembly.program_eq]
    exact packed
  · obtain ⟨_, _, positive, _⟩ := assembly.ordered.bounds record member
    exact List.length_pos_iff.mp positive

/-- A literal of 32 bytes is cut, its rest goes on with the next statement, and a reservation of no
bytes closes the record. -/
theorem records_break_only_where_needed_around_reservation :
    ∃ (program : ObjectProgram) (after : Assembler) (groups : List (List Item)),
      Assembler.assemble { machine := .xe }
        ["A BYTE C'ABCDEFGHIJKLMNOPQRSTUVWXYZ012345'", "B WORD 1", "C RESB 0", "D WORD 2"] =
        (.ok program, after) ∧
      groups.flatten.map Item.position = [0, 0, 1, 3] ∧
      program.texts.map TextRecord.bytes = groups.map Item.join ∧
      groups.map (fun group => (Item.join group).length) = [30, 5, 3] := by
  have made : Assembler.assemble { machine := .xe }
      ["A BYTE C'ABCDEFGHIJKLMNOPQRSTUVWXYZ012345'", "B WORD 1", "C RESB 0", "D WORD 2"] =
      (.ok
        { header := ⟨"", 0, 38⟩
          texts :=
            [⟨0, [65, 66, 67, 68, 69, 70, 71, 72, 73, 74, 75, 76, 77, 78, 79, 80, 81, 82, 83, 84,
              85, 86, 87, 88, 89, 90, 48, 49, 50, 51]⟩, ⟨30, [52, 53, 0, 0, 1]⟩, ⟨35, [0, 0, 2]⟩]
          modifications := []
          entry := 0 },
        { machine := .xe
          length := 38
          symbols := ⟨[("D", 35), ("C", 35), ("B", 32), ("A", 0)], by decide⟩
          listing :=
            [⟨1, 0, "A BYTE C'ABCDEFGHIJKLMNOPQRSTUVWXYZ012345'",
                "4142434445464748494A4B4C4D4E4F505152535455565758595A303132333435"⟩,
              ⟨2, 32, "B WORD 1", "000001"⟩, ⟨3, 35, "C RESB 0", ""⟩,
              ⟨4, 35, "D WORD 2", "000002"⟩] }) := by
    decide +kernel
  obtain ⟨_, groups, _, _, _, flat, packed, _⟩ := records_break_only_where_needed made
  refine ⟨_, _, groups, made, ?_, packed, ?_⟩
  · rw [flat]
    decide +kernel
  · rw [show groups.map (fun group => (Item.join group).length) =
      (groups.map Item.join).map List.length by simp, ← packed]
    rfl

end SicAssembler
