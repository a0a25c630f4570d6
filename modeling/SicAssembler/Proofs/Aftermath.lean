import SicAssembler.Proofs.FirstError

/-! # What a failure leaves behind

The second pass changes the state only when all its code is generated. The first pass changes it as
it goes, so a failure leaves the layout that was reached: the labels above the line at fault, and
the label of this line as well if only the room for its statement was missing. After a failed
assembly nothing of an earlier one is left.
-/

namespace SicAssembler

theorem SourceLine.StartsAt.unique {lines : List SourceLine} {start other : Nat}
    (left : StartsAt start lines) (right : StartsAt other lines) : start = other := by
  cases lines with
  | nil => exact left.trans right.symm
  | cons first rest =>
    have opens : Layout.applyStart true {} first = .ok _ := Layout.opens_iff.mpr ⟨start, left, rfl⟩
    have opensToo : Layout.applyStart true {} first = .ok _ :=
      Layout.opens_iff.mpr ⟨other, right, rfl⟩
    exact congrArg Layout.start (Except.ok.inj (opens.symm.trans opensToo))

namespace Layout

variable {front : List SourceLine} {line : SourceLine} {fault : Fault} {sizes : List Nat}
  {layout left : Layout}

/-- The table that is left when a line behind others is at fault: the labels of the lines in front,
each with the address of its line, and the label of the line itself if the fault is one of its
size. -/
structure LeftBehind (front : List SourceLine) (line : SourceLine) (fault : Fault)
    (sizes : List Nat) (start : Nat) (symbols : SymbolTable) : Prop where
  sized : SourceLine.HaveSizes front sizes
  get?_iff : ∀ name address, symbols.get? name = some address ↔
    (∃ (position : Nat) (earlier : SourceLine), front[position]? = some earlier ∧
      earlier.statement.label = some name ∧ address = start + (sizes.take position).sum) ∨
    (line.SizeFault (start + sizes.sum) fault ∧ line.statement.label = some name ∧
      address = start + sizes.sum)

/-- A line that is stopped for another reason than its size leaves the table alone. -/
theorem Reached.leftBehind (reached : Reached front sizes layout)
    (noSizeFault : ¬ line.SizeFault layout.counter fault) :
    LeftBehind front line fault sizes layout.start layout.symbols := by
  refine ⟨reached.sized, fun name address => ?_⟩
  rw [reached.get?_iff, ← reached.counter_eq]
  exact ⟨.inl, fun entry => entry.resolve_right fun ⟨noRoom, _⟩ => noSizeFault noRoom⟩

/-- A line that is stopped for its size has its label in the table. -/
theorem Reached.leftBehind_of_defineLabel (reached : Reached front sizes layout)
    (defined : layout.defineLabel line = .ok left) (noRoom : line.SizeFault left.counter fault) :
    LeftBehind front line fault sizes left.start left.symbols := by
  obtain ⟨entries, same⟩ := defineLabel_eq_ok_iff.mp defined
  have start : left.start = layout.start := by rw [same]
  have counter : left.counter = left.start + sizes.sum := by
    rw [same]
    exact reached.counter_eq
  refine ⟨reached.sized, fun name address => ?_⟩
  rw [SymbolTable.get?_eq_some_iff, entries, List.mem_append, ← SymbolTable.get?_eq_some_iff,
    reached.get?_iff, start, ← reached.counter_eq, or_comm]
  apply or_congr_right
  have counterEq : left.counter = layout.counter := by rw [same]
  simp only [Option.mem_toList, Option.map_eq_some_iff, Prod.mk.injEq]
  constructor
  · rintro ⟨label, labelled, rfl, rfl⟩
    exact ⟨counterEq ▸ noRoom, labelled, rfl⟩
  · rintro ⟨_, labelled, rfl⟩
    exact ⟨name, labelled, rfl, rfl⟩

/-- A `START` takes no room. -/
theorem not_sizeFault_of_start {counter : Nat}
    (isStart : line.statement.operation = .directive .start) (bounded : counter < Address.limit) :
    ¬ line.SizeFault counter fault := by
  have noSize : line.statement.size = .ok 0 := by rw [Statement.size, isStart]
  rintro (failed | ⟨size, sized, beyond, _⟩)
  · rw [noSize] at failed
    contradiction
  · rw [noSize] at sized
    cases sized
    omega

private theorem Stops.leftBehind (reached : Reached front sizes layout)
    (stops : Stops front.isEmpty layout line fault left) :
    LeftBehind front line fault sizes left.start left.symbols := by
  cases stops with
  | lateStart _ isStart =>
    exact reached.leftBehind (not_sizeFault_of_start isStart reached.bounded)
  | badStart _ isStart _ =>
    exact reached.leftBehind (not_sizeFault_of_start isStart reached.bounded)
  | duplicate started _ _ =>
    apply (reached.applyStart started).leftBehind
    intro noRoom
    exact noRoom.not_foreign (Fault.foreign_duplicateLabel 0 _ _) rfl
  | noRoom started defined noRoom =>
    exact (reached.applyStart started).leftBehind_of_defineLabel defined noRoom

/-- A program that begins at an address is left with this address. -/
theorem Stops.start_eq {back : List SourceLine} {start : Nat}
    (unclosed : ∀ earlier ∈ front, earlier.isEnd = false) (placed : ofLines front = .ok layout)
    (stops : Stops front.isEmpty layout line fault left)
    (startsAt : SourceLine.StartsAt start (front ++ line :: back)) : left.start = start := by
  cases stops with
  | lateStart notFirst _ =>
    cases front with
    | nil => contradiction
    | cons first rest => exact (startsAt_of_ofLines unclosed placed _).unique startsAt
  | badStart isFirst isStart failed =>
    obtain rfl := List.isEmpty_iff.mp isFirst
    have opens := opens_iff.mpr ⟨start, startsAt, rfl⟩
    simp [Opens, applyStart, isStart, failed, halt] at opens
  | duplicate started _ _ => exact (startsAt_of_applyStart unclosed placed started).unique startsAt
  | noRoom started defined _ =>
    obtain ⟨_, same⟩ := defineLabel_eq_ok_iff.mp defined
    rw [same]
    exact (startsAt_of_applyStart unclosed placed started).unique startsAt

end Layout

namespace Assembler

variable {state next after : Assembler} {source : List SourceLine} {diagnostic : Diagnostic}

/-- The second pass changes nothing unless it succeeds. -/
theorem eq_of_secondPass_eq_error (failed : state.secondPass source = (.error diagnostic, next)) :
    next = state := by
  unfold secondPass at failed
  split at failed
  · exact (congrArg Prod.snd failed).symm
  · cases failed

/-- The first pass writes the length last, and does not touch the listing. -/
theorem kept_of_firstPass_eq_error (failed : state.firstPass source = (.error diagnostic, next)) :
    next.listing = state.listing ∧ next.length = state.length := by
  rw [firstPass_eq] at failed
  split at failed
  · cases failed
    exact ⟨rfl, rfl⟩
  · cases failed

private theorem listing_of_assemble_eq_error {texts : List String}
    (failed : state.assemble texts = (.error diagnostic, after)) : after.listing = [] := by
  rcases assemble_eq_error_cases failed with ⟨_, rfl⟩ | ⟨source, _, ⟨halt, _, _, rfl⟩ | ⟨passed, _⟩⟩
  · rfl
  · rfl
  · obtain ⟨_, _, listing⟩ := firstPass_eq_ok_iff.mp passed
    exact listing

/-- A successful first pass leaves the same program in every state. -/
theorem exists_firstPass (other : Assembler) (passed : state.firstPass source = (.ok (), after)) :
    ∃ next, other.firstPass source = (.ok (), next) ∧ after.name = next.name ∧
      after.start = next.start ∧ after.length = next.length ∧ after.symbols = next.symbols := by
  obtain ⟨placed, _, _⟩ := firstPass_eq_ok_iff.mp passed
  refine ⟨{ after with machine := other.machine, listing := other.listing }, ?_, rfl, rfl, rfl, rfl⟩
  exact firstPass_eq_ok_iff.mpr ⟨placed, rfl, rfl⟩

/-- A layout that stops at a line has the address of the program and the table of the lines in
front. -/
theorem exists_leftBehind (state : Assembler) {texts : List String} {halt : Layout.Halt}
    (parsed : SourceLine.parseAll state.machine texts = .ok source)
    (unplaced : Layout.ofLines source = .error halt) :
    ∃ line ∈ SourceLine.throughEnd source, ∃ fault sizes,
      halt.diagnostic = .source line.line fault ∧ state.StopsFirstPass source line fault ∧
      Layout.LeftBehind (SourceLine.above line.line source) line fault sizes halt.layout.start
        halt.layout.symbols ∧
      ∀ start, SourceLine.StartsAt start source → halt.layout.start = start := by
  obtain ⟨front, line, fault, reached, stopped⟩ := Layout.exists_stopped unplaced
  obtain ⟨back, cut⟩ := stopped.cut
  obtain ⟨inFront, text, located⟩ := SourceLine.exists_located parsed cut
  obtain ⟨sizes, behind⟩ := Layout.reached_of_ofLines stopped.unclosed stopped.placed
  refine ⟨line, located.member, fault, sizes, stopped.reported,
    stopsFirstPass state stopped inFront, inFront ▸ stopped.stops.leftBehind behind, ?_⟩
  intro start startsAt
  rw [← SourceLine.startsAt_throughEnd_iff, cut] at startsAt
  exact stopped.stops.start_eq stopped.unclosed stopped.placed startsAt

/-- What a failure leaves behind. A failed second pass leaves the state as it was, and a failed
first pass leaves the listing and the length. After a failed assembly there is no listing. If a line
could not be read, the state is that of a new assembler. If the first pass failed, the length is 0
and the table has exactly the labels above the line at fault, each at the address of its statement,
and the label of this line if the fault is one of its size. If the second pass failed, the program
in the state is what the first pass leaves in any state. -/
theorem failure_leaves_behind (state : Assembler) :
    (∀ source diagnostic next, state.secondPass source = (.error diagnostic, next) →
      next = state) ∧
    (∀ source diagnostic next, state.firstPass source = (.error diagnostic, next) →
      next.listing = state.listing ∧ next.length = state.length) ∧
    ∀ texts diagnostic after, state.assemble texts = (.error diagnostic, after) →
      after.listing = [] ∧
      (∀ unread, SourceLine.parseAll state.machine texts = .error unread →
        after = { machine := state.machine }) ∧
      ∀ source, SourceLine.parseAll state.machine texts = .ok source →
        ((state.firstPass source).1 ≠ .ok () →
          after.length = 0 ∧
          ∃ line ∈ SourceLine.throughEnd source, ∃ fault sizes,
            diagnostic = .source line.line fault ∧ state.StopsFirstPass source line fault ∧
            Layout.LeftBehind (SourceLine.above line.line source) line fault sizes after.start
              after.symbols ∧
            ∀ start, SourceLine.StartsAt start source → after.start = start) ∧
        ((state.firstPass source).1 = .ok () →
          ∀ other : Assembler, ∃ next, other.firstPass source = (.ok (), next) ∧
            after.name = next.name ∧ after.start = next.start ∧ after.length = next.length ∧
            after.symbols = next.symbols) := by
  refine ⟨fun _ _ _ => eq_of_secondPass_eq_error, fun _ _ _ => kept_of_firstPass_eq_error, ?_⟩
  intro texts diagnostic after failed
  refine ⟨listing_of_assemble_eq_error failed, ?_, ?_⟩
  · intro unread notParsed
    rw [assemble, notParsed] at failed
    exact (congrArg Prod.snd failed).symm
  · intro source parsed
    rcases assemble_eq_error_cases failed with ⟨unread, _⟩ | ⟨other, parsedToo, stopped⟩
    · rw [parsed] at unread
      contradiction
    · obtain rfl : source = other := Except.ok.inj (parsed.symm.trans parsedToo)
      rcases stopped with ⟨halt, unplaced, rfl, rfl⟩ | ⟨passed, _⟩
      · constructor
        · exact fun _ => ⟨rfl, exists_leftBehind state parsed unplaced⟩
        · intro passed
          rw [firstPass_eq, unplaced] at passed
          contradiction
      · constructor
        · intro notPassed
          obtain ⟨next, passedToo, _⟩ := exists_firstPass state passed
          exact absurd (congrArg Prod.fst passedToo) notPassed
        · exact fun _ other => exists_firstPass other passed

/-- The label of a reservation without a count is in the table. -/
theorem failure_leaves_behind_own_label :
    ∃ fault after,
      assemble { machine := .sic, length := 7 } ["P START 10", "A RESB 2", "B RESW X"] =
        (.error (.source 3 fault), after) ∧
      after.listing = [] ∧ after.length = 0 ∧ after.start = 0x10 ∧
      after.symbols.get? "B" = some 0x12 := by
  have parsed : SourceLine.parseAll .sic ["P START 10", "A RESB 2", "B RESW X"] =
      .ok [⟨1, "P START 10", ⟨some "P", .directive .start, some ⟨"10"⟩, false⟩⟩,
        ⟨2, "A RESB 2", ⟨some "A", .directive .reserveBytes, some ⟨"2"⟩, false⟩⟩,
        ⟨3, "B RESW X", ⟨some "B", .directive .reserveWords, some ⟨"X"⟩, false⟩⟩] := by
    decide +kernel
  have failed : assemble { machine := .sic, length := 7 } ["P START 10", "A RESB 2", "B RESW X"] =
      (.error (.source 3 (.invalidOperand "X" (.numeral (.invalidDecimal "X")))),
        { machine := .sic, name := "P", start := 0x10
          symbols := ⟨[("B", 0x12), ("A", 0x10), ("P", 0x10)], by decide⟩ }) := by
    decide +kernel
  obtain ⟨listing, _, passes⟩ := (failure_leaves_behind _).2.2 _ _ _ failed
  obtain ⟨length, line, member, fault, sizes, reported, _, left, start⟩ :=
    (passes _ parsed).1 (by decide +kernel)
  obtain ⟨number, rfl⟩ := Diagnostic.source.inj reported
  rw [← number] at left
  obtain rfl : sizes = [0, 2] := left.sized.unique rfl
  refine ⟨_, _, failed, listing, length, start 0x10 rfl, (left.get?_iff "B" 0x12).mpr (.inr ?_)⟩
  rcases List.mem_cons.mp member with rfl | member
  · contradiction
  rcases List.mem_cons.mp member with rfl | member
  · contradiction
  obtain rfl := List.mem_singleton.mp member
  exact ⟨.inl (by decide +kernel), rfl, rfl⟩

end Assembler

end SicAssembler
